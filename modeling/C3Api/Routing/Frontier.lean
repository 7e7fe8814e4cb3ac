import Mathlib.Data.List.Sort
import Mathlib.Data.Prod.Lex
import Mathlib.Order.WithBot

/-!
# The routing frontier

`routing_frontier.go`: the candidates of a route that no other one beats on cost and on the
lower bound of the success rate. The candidates are scanned by rising cost, and one goes on
the frontier if its bound is above all before it. The bounds are any total order.
-/

namespace C3Api.Routing

open List

/-- What the database sums up for a candidate over the window. -/
structure RoutingQualityStat where
  candidateFingerprint : String
  attempts : Int
  successes : Int

structure RoutingFrontierCandidate (F : Type) where
  candidateFingerprint : String
  known : Bool
  successLCB : F
  inputUnitCost : Int
  costKnown : Bool
  insufficient : Bool

def isExplore (attempts : Int) : Bool := attempts < 30

/-- `planned` says which candidates the plan has; `price` is what one of them costs. -/
def frontierCandidate {F : Type} (wilsonLCB : Int → Int → F) (planned : String → Bool)
    (price : RoutingQualityStat → Option Int) (row : RoutingQualityStat) :
    RoutingFrontierCandidate F :=
  let cost := if planned row.candidateFingerprint && 0 < row.successes then price row else none
  { candidateFingerprint := row.candidateFingerprint
    known := planned row.candidateFingerprint
    successLCB := wilsonLCB row.successes row.attempts
    inputUnitCost := cost.getD 0
    costKnown := cost.isSome
    insufficient := isExplore row.attempts }

/-- A candidate with its index. -/
abbrev Indexed (F : Type) := RoutingFrontierCandidate F × Nat

variable {F : Type} [LinearOrder F]

/-- By rising cost, and by falling bound where the costs are the same. -/
def sortKey (e : Indexed F) : Int ×ₗ Fᵒᵈ :=
  toLex (e.1.inputUnitCost, OrderDual.toDual e.1.successLCB)

def eligible (cands : List (RoutingFrontierCandidate F)) : List (Indexed F) :=
  cands.zipIdx.filter fun e => e.1.known && e.1.costKnown

/-- The scan with the best bound so far, which is below all at first. -/
def scan (bestLCB : WithBot F) : List (Indexed F) → List (Indexed F)
  | [] => []
  | e :: rest =>
    if bestLCB < e.1.successLCB then e :: scan e.1.successLCB rest else scan bestLCB rest

abbrev ranked (cands : List (RoutingFrontierCandidate F)) : List (Indexed F) :=
  (eligible cands).insertionSort fun a b => sortKey a ≤ sortKey b

/-- The indices of the candidates that go on the frontier. -/
def markParetoFrontier (cands : List (RoutingFrontierCandidate F)) : List Nat :=
  (scan ⊥ (ranked cands)).map Prod.snd

def Dominates (a b : RoutingFrontierCandidate F) : Prop :=
  a.inputUnitCost ≤ b.inputUnitCost ∧ b.successLCB ≤ a.successLCB ∧
    (a.inputUnitCost < b.inputUnitCost ∨ b.successLCB < a.successLCB)

def SamePoint (a b : RoutingFrontierCandidate F) : Prop :=
  a.inputUnitCost = b.inputUnitCost ∧ a.successLCB = b.successLCB

section

variable {xs : List (Indexed F)} {best : WithBot F} {a b e : Indexed F}

theorem not_dominates_of_le (ordered : sortKey a ≤ sortKey b) : ¬ Dominates b.1 a.1 := by
  rintro ⟨cheap, high, better⟩
  rcases Prod.Lex.toLex_le_toLex.mp ordered with less | ⟨same, bound⟩
  · exact less.not_ge cheap
  · exact better.elim same.not_gt (not_lt.mpr bound)

theorem mem_scan (marked : e ∈ scan best xs) : e ∈ xs ∧ best < e.1.successLCB := by
  induction xs generalizing best with
  | nil => cases marked
  | cons x rest ih =>
    unfold scan at marked
    split at marked
    next above =>
      rcases mem_cons.mp marked with rfl | later
      · exact ⟨mem_cons_self, above⟩
      · exact ⟨mem_cons_of_mem _ (ih later).1, above.trans (ih later).2⟩
    · exact ⟨mem_cons_of_mem _ (ih marked).1, (ih marked).2⟩

theorem scan_bounds_nodup : ((scan best xs).map (·.1.successLCB)).Nodup := by
  induction xs generalizing best with
  | nil => exact .nil
  | cons x rest ih =>
    unfold scan
    split
    · refine nodup_cons.mpr ⟨fun again => ?_, ih⟩
      obtain ⟨e, later, same⟩ := mem_map.mp again
      exact (WithBot.coe_lt_coe.mp (mem_scan later).2).ne same.symm
    · exact ih

/-- What comes before a marked candidate has a lower bound. -/
theorem lt_of_mem_scan (once : xs.Nodup) (before : [a, e] <+ xs) (marked : e ∈ scan best xs) :
    a.1.successLCB < e.1.successLCB := by
  induction xs generalizing best with
  | nil => cases marked
  | cons x rest ih =>
    obtain ⟨new, once⟩ := nodup_cons.mp once
    cases before with
    | cons _ before =>
      unfold scan at marked
      split at marked
      · rcases mem_cons.mp marked with rfl | later
        · exact absurd (before.subset (by simp)) new
        · exact ih once before later
      · exact ih once before marked
    | cons_cons _ after =>
      have listed : e ∈ rest := singleton_sublist.mp after
      unfold scan at marked
      split at marked
      · rcases mem_cons.mp marked with rfl | later
        · exact absurd listed new
        · exact WithBot.coe_lt_coe.mp (mem_scan later).2
      next low => exact WithBot.coe_lt_coe.mp ((not_lt.mp low).trans_lt (mem_scan marked).2)

variable (sorted : xs.Pairwise fun a b => sortKey a ≤ sortKey b)

include sorted

theorem scan_undominated (marked : e ∈ scan best xs) : ∀ d ∈ xs, ¬ Dominates d.1 e.1 := by
  induction xs generalizing best with
  | nil => cases marked
  | cons x rest ih =>
    obtain ⟨first, sorted⟩ := pairwise_cons.mp sorted
    have above := (mem_scan marked).2
    unfold scan at marked
    split at marked
    · rcases mem_cons.mp marked with rfl | later
      · refine forall_mem_cons.mpr ⟨fun self => ?_, fun d member => not_dominates_of_le (first d member)⟩
        exact self.2.2.elim (lt_irrefl _) (lt_irrefl _)
      · refine forall_mem_cons.mpr ⟨fun wrong => ?_, ih sorted later⟩
        exact wrong.2.1.not_gt (WithBot.coe_lt_coe.mp (mem_scan later).2)
    next low =>
      refine forall_mem_cons.mpr ⟨fun wrong => ?_, ih sorted marked⟩
      exact low (above.trans_le (WithBot.coe_le_coe.mpr wrong.2.1))

/-- Every candidate has a marked one that costs no more and is bounded no lower. -/
theorem scan_covers (member : e ∈ xs) (above : best < e.1.successLCB) :
    ∃ d ∈ scan best xs, d.1.inputUnitCost ≤ e.1.inputUnitCost ∧
      e.1.successLCB ≤ d.1.successLCB := by
  induction xs generalizing best with
  | nil => cases member
  | cons x rest ih =>
    obtain ⟨first, sorted⟩ := pairwise_cons.mp sorted
    unfold scan
    split
    · rcases mem_cons.mp member with rfl | later
      · exact ⟨e, mem_cons_self, le_rfl, le_rfl⟩
      · rcases lt_or_ge x.1.successLCB e.1.successLCB with less | covered
        · obtain ⟨d, marked, covers⟩ := ih sorted later (WithBot.coe_lt_coe.mpr less)
          exact ⟨d, mem_cons_of_mem _ marked, covers⟩
        · refine ⟨x, mem_cons_self, ?_, covered⟩
          exact (Prod.Lex.toLex_le_toLex.mp (first e later)).elim le_of_lt fun same => same.1.le
    next low =>
      rcases mem_cons.mp member with rfl | later
      · exact absurd above low
      · exact ih sorted later above

end

/-- The candidate may go on the frontier. -/
structure WellSampled (c : RoutingFrontierCandidate F) : Prop where
  known : c.known = true
  costKnown : c.costKnown = true
  sufficient : c.insufficient = false

theorem mem_ranked {cands : List (RoutingFrontierCandidate F)} {e : Indexed F} :
    e ∈ ranked cands ↔ cands[e.2]? = some e.1 ∧ e.1.known = true ∧ e.1.costKnown = true := by
  rw [mem_insertionSort, eligible, mem_filter, mem_zipIdx_iff_getElem?, Bool.and_eq_true]

section

variable {cands : List (RoutingFrontierCandidate F)} {a b e : Indexed F}

theorem samePoint_of_covers {d c : RoutingFrontierCandidate F}
    (covers : d.inputUnitCost ≤ c.inputUnitCost ∧ c.successLCB ≤ d.successLCB)
    (undominated : ¬Dominates d c) : SamePoint d c := by
  refine ⟨covers.1.antisymm (not_lt.mp fun less => ?_), (not_lt.mp fun less => ?_).antisymm covers.2⟩
  · exact undominated ⟨covers.1, covers.2, .inl less⟩
  · exact undominated ⟨covers.1, covers.2, .inr less⟩

omit [LinearOrder F] in
theorem eligible_increasing : (eligible cands).Pairwise fun a b => a.2 < b.2 := by
  refine Pairwise.filter _ (pairwise_map.mp ?_)
  rw [zipIdx_map_snd]
  exact pairwise_lt_range'

/-- The sort keeps the order of the indices where the places are the same. -/
theorem sorted_pair (first : a ∈ ranked cands) (second : b ∈ ranked cands) (less : a.2 < b.2)
    (ordered : sortKey a ≤ sortKey b) : [a, b] <+ ranked cands := by
  have : Std.Antisymm fun a b : Indexed F => a.2 < b.2 := ⟨fun _ _ lt gt => absurd lt gt.not_gt⟩
  refine pair_sublist_insertionSort ordered (sublist_of_subperm_of_pairwise
    (subperm_of_subset ?_ ?_) (pairwise_pair.mpr less) eligible_increasing)
  · exact nodup_cons.mpr ⟨fun same => less.ne (congrArg _ (mem_singleton.mp same)), nodup_singleton _⟩
  · rw [mem_insertionSort] at first second
    exact cons_subset.mpr ⟨first, cons_subset.mpr ⟨second, nil_subset _⟩⟩

/-- A marked candidate is the first of its point. -/
theorem first_of_marked (marked : e ∈ scan ⊥ (ranked cands)) (own : a ∈ ranked cands)
    (same : SamePoint a.1 e.1) : ¬a.2 < e.2 := by
  intro less
  have once : (ranked cands).Nodup := (perm_insertionSort _ _).nodup_iff.mpr
      (eligible_increasing.imp fun less same => less.ne (congrArg _ same))
  have pair := sorted_pair own (mem_scan marked).1 less
    (Prod.Lex.toLex_le_toLex.mpr (.inr ⟨same.1, same.2.ge⟩))
  exact (lt_of_mem_scan once pair marked).ne same.2

end

/-- The frontier is the Pareto set of the candidates with enough samples exactly when every other
one of known cost is dominated or shares its point with an earlier candidate. -/
theorem frontier_is_pareto (cands : List (RoutingFrontierCandidate F)) :
    ((∀ i ∈ markParetoFrontier cands, ∃ c, cands[i]? = some c ∧ WellSampled c ∧
        ∀ d ∈ cands, WellSampled d → ¬ Dominates d c) ∧
      ∀ c ∈ cands, WellSampled c → (∀ d ∈ cands, WellSampled d → ¬ Dominates d c) →
        ∃! i, i ∈ markParetoFrontier cands ∧ ∃ m, cands[i]? = some m ∧ SamePoint m c) ↔
    ∀ (i : Nat) c, cands[i]? = some c → c.known = true → c.costKnown = true →
      c.insufficient = true → ∃ (j : Nat) (d : RoutingFrontierCandidate F), cands[j]? = some d ∧
        d.known = true ∧ d.costKnown = true ∧ (Dominates d c ∨ (j < i ∧ SamePoint d c)) := by
  have sorted := pairwise_insertionSort (fun a b : Indexed F => sortKey a ≤ sortKey b)
    (eligible cands)
  constructor
  · rintro ⟨marks, -⟩ i c there known costKnown few
    -- a candidate that nothing displaces is its own representative
    by_contra displaced
    push Not at displaced
    have own : (c, i) ∈ ranked cands := mem_ranked.mpr ⟨there, known, costKnown⟩
    obtain ⟨⟨d, j⟩, scanned, covers⟩ := scan_covers sorted own (WithBot.bot_lt_coe _)
    obtain ⟨found, dKnown, dCost⟩ := mem_ranked.mp (mem_scan scanned).1
    obtain ⟨undominated, earlier⟩ := displaced j d found dKnown dCost
    have same := samePoint_of_covers covers undominated
    rcases lt_trichotomy j i with less | equal | later
    · exact earlier less same
    · obtain ⟨c', found', well, -⟩ := marks j (mem_map_of_mem scanned)
      rw [equal, there] at found'
      cases found'
      rw [well.sufficient] at few
      cases few
    · exact first_of_marked scanned own ⟨same.1.symm, same.2.symm⟩ later
  · intro displaced
    -- what displaces a candidate also keeps it off the frontier
    have sampled : ∀ e ∈ scan ⊥ (ranked cands), WellSampled e.1 := by
      intro e scanned
      obtain ⟨there, known, costKnown⟩ := mem_ranked.mp (mem_scan scanned).1
      refine ⟨known, costKnown, Bool.eq_false_of_not_eq_true fun few => ?_⟩
      obtain ⟨j, d, found, dKnown, dCost, cause⟩ := displaced e.2 e.1 there known costKnown few
      have other : (d, j) ∈ ranked cands := mem_ranked.mpr ⟨found, dKnown, dCost⟩
      rcases cause with dominates | ⟨less, same⟩
      · exact scan_undominated sorted scanned (d, j) other dominates
      · exact first_of_marked scanned other same less
    have indexed : ∀ c ∈ cands, WellSampled c → ∃ i, (c, i) ∈ ranked cands := by
      intro c member well
      obtain ⟨i, there⟩ := mem_iff_getElem?.mp member
      exact ⟨i, mem_ranked.mpr ⟨there, well.known, well.costKnown⟩⟩
    constructor
    · intro i marked
      obtain ⟨e, scanned, rfl⟩ := mem_map.mp marked
      refine ⟨e.1, (mem_ranked.mp (mem_scan scanned).1).1, sampled e scanned, fun d member well => ?_⟩
      obtain ⟨j, there⟩ := indexed d member well
      exact scan_undominated sorted scanned (d, j) there
    · intro c member well undominated
      obtain ⟨i, there⟩ := indexed c member well
      obtain ⟨e, scanned, covers⟩ := scan_covers sorted there (WithBot.bot_lt_coe _)
      have found := (mem_ranked.mp (mem_scan scanned).1).1
      have same := samePoint_of_covers covers
        (undominated e.1 (mem_of_getElem? found) (sampled e scanned))
      refine ⟨e.2, ⟨mem_map_of_mem scanned, e.1, found, same⟩, ?_⟩
      rintro j ⟨marked, m, there, point⟩
      obtain ⟨f, again, rfl⟩ := mem_map.mp marked
      rw [(mem_ranked.mp (mem_scan again).1).1] at there
      cases there
      rw [inj_on_of_nodup_map scan_bounds_nodup again scanned (point.2.trans same.2.symm)]

/-- One success in so many attempts, at a known price. -/
def oneSuccess (attempts : Int) : RoutingFrontierCandidate Int :=
  frontierCandidate (fun successes _ => successes) (fun _ => true) (fun _ => some 5)
    ⟨"c", attempts, 1⟩

/-- A single attempt is enough to be marked. -/
theorem few_samples_marked :
    (oneSuccess 1).insufficient = true ∧ markParetoFrontier [oneSuccess 1] = [0] := by
  decide +kernel

end C3Api.Routing
