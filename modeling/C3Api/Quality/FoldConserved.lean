import C3Api.Quality.FoldCells
import Mathlib.Tactic.Abel

/-!
# Where flow counters are conserved

What drains have handed out and what the table still stores add up to what was added, key by
key, as long as two things do not happen: a claim takes over a tombstone that a late add has
counted in, or a shard grows with counts in it.
-/

namespace C3Api.Quality

open Interleaving Option Function Finset FoldShard FoldSlot

section

variable {C : Type} {s : FoldShard C} {f : AttemptFact} {j : Fin s.cap}

theorem FoldShard.fastMatch_spec {js : List (Fin s.cap)} (found : s.fastMatch f js = some j) :
    (s.slots j).state ≠ .empty ∧ (s.slots j).key = f := by
  induction js with
  | nil => cases found
  | cons first rest ih =>
    unfold fastMatch at found
    split at found
    · cases found
    rename_i claimed
    split at found
    next key =>
      cases found
      exact ⟨claimed, key⟩
    · exact ih found

theorem FoldShard.slowMatch_spec (found : s.slowMatch f = some j) :
    (s.slots j).state ≠ .empty ∧ (s.slots j).key = f := by
  have matched := List.find?_some found
  exact of_decide_eq_true matched

theorem FoldShard.claimable_spec (found : s.claimable f = some j) : (s.slots j).state ≠ .live := by
  have free := List.find?_some found
  exact of_decide_eq_true free

end

variable {C : Type} [AddCommGroup C] {s s' : FoldShard C} {f g : AttemptFact} {delta : C}
  {i : Fin foldShardCount} {t t' : FoldCellTable C}

def sumOf (entries : List (AttemptFact × C)) (f : AttemptFact) : C :=
  (entries.map fun e => if e.1 = f then e.2 else 0).sum

@[simp] theorem sumOf_nil (f : AttemptFact) : sumOf ([] : List (AttemptFact × C)) f = 0 := rfl

@[simp] theorem sumOf_cons (e : AttemptFact × C) (rest : List (AttemptFact × C)) (f : AttemptFact) :
    sumOf (e :: rest) f = (if e.1 = f then e.2 else 0) + sumOf rest f := by
  simp [sumOf]

@[simp] theorem sumOf_append (entries more : List (AttemptFact × C)) (f : AttemptFact) :
    sumOf (entries ++ more) f = sumOf entries f + sumOf more f := by
  simp [sumOf]

def FoldSlot.holds (f : AttemptFact) (sl : FoldSlot C) : C :=
  if sl.state ≠ .empty ∧ sl.key = f then sl.count else 0

def FoldShard.stored (s : FoldShard C) (f : AttemptFact) : C := ∑ j, (s.slots j).holds f

def FoldCellTable.stored (t : FoldCellTable C) (f : AttemptFact) : C :=
  ∑ i, (t.shards i).stored f

section

variable {sl : FoldSlot C}

theorem sum_update {n : Nat} {α : Type} (count : α → C) (values : Fin n → α) (j : Fin n) (v : α) :
    ∑ k, count (update values j v k) = ∑ k, count (values k) + (count v - count (values j)) := by
  rw [← sub_eq_iff_eq_add', ← sum_sub_distrib, sum_eq_single_of_mem j (mem_univ j), update_self]
  intro k _ other
  rw [update_of_ne other, sub_self]

theorem FoldShard.stored_update (j : Fin s.cap) :
    (s.update j sl).stored f = s.stored f + (sl.holds f - (s.slots j).holds f) :=
  sum_update (holds f) s.slots j sl

theorem FoldSlot.holds_empty (empty : sl.state = .empty) : sl.holds f = 0 :=
  if_neg fun ⟨claimed, _⟩ => claimed empty

theorem FoldSlot.holds_zero (zero : sl.count = 0) : sl.holds f = 0 := by
  unfold holds
  split
  · exact zero
  · rfl

theorem FoldSlot.holds_add (claimed : sl.state ≠ .empty) (key : sl.key = g) :
    (sl.add delta).holds f - sl.holds f = if g = f then delta else 0 := by
  subst key
  unfold holds add
  by_cases same : sl.key = f
  · simp [claimed, same]
  · simp [same]

theorem FoldSlot.holds_drained (curMinute : Int64) : (sl.drained curMinute).holds f = 0 := by
  unfold drained
  split
  next empty => exact holds_empty empty
  · exact holds_zero rfl

variable [DecidableEq C]

theorem FoldShard.drain_stored (curMinute : Int64) : (s.drain curMinute).1.stored f = 0 :=
  sum_eq_zero fun _ _ => holds_drained curMinute

theorem FoldSlot.sumOf_swapped : sumOf sl.swapped.toList f = sl.holds f := by
  unfold swapped holds
  by_cases empty : sl.state = .empty
  · simp [empty]
  by_cases zero : sl.count = 0
  · simp [zero]
  · simp [empty, zero]

theorem FoldShard.drain_handed (curMinute : Int64) :
    sumOf (s.drain curMinute).2 f = s.stored f := by
  rw [stored, Fin.sum_univ_def, drain]
  generalize List.finRange s.cap = js
  induction js with
  | nil => rfl
  | cons j rest ih =>
    rw [List.map_cons, List.sum_cons, ← ih, ← sumOf_swapped, ← sumOf_append]
    cases given : (s.slots j).swapped with
    | none | some e => simp [given]

end

/-- Slots that were never claimed count nothing, and claimed ones are in the shard of their
key. -/
structure FoldShard.Sound (i : Fin foldShardCount) (s : FoldShard C) : Prop where
  clean : ∀ j, (s.slots j).state = .empty → (s.slots j).count = 0
  placed : ∀ j, (s.slots j).state ≠ .empty → foldShardOf (s.slots j).key.accountID = i

def FoldCellTable.Sound (t : FoldCellTable C) : Prop := ∀ i, (t.shards i).Sound i

theorem FoldShard.Sound.update {j : Fin s.cap} {sl : FoldSlot C} (sound : s.Sound i)
    (claimed : sl.state ≠ .empty) (own : foldShardOf sl.key.accountID = i) :
    (s.update j sl).Sound i := by
  constructor
  · apply (forall_update_iff s.slots fun _ sl => sl.state = .empty → sl.count = 0).mpr
    exact ⟨fun empty => absurd empty claimed, fun k _ => sound.clean k⟩
  · apply (forall_update_iff s.slots
      fun _ sl => sl.state ≠ .empty → foldShardOf sl.key.accountID = i).mpr
    exact ⟨fun _ => own, fun k _ => sound.placed k⟩

theorem addFast_sound (sound : s.Sound (foldShardOf f.accountID))
    (landed : s.addFast f delta = some s') : s'.Sound (foldShardOf f.accountID) := by
  obtain ⟨j, found, rfl⟩ := map_eq_some_iff.mp landed
  obtain ⟨claimed, key⟩ := fastMatch_spec found
  exact sound.update claimed (congrArg (foldShardOf ·.accountID) key)

theorem addSlow_sound {counted : Bool} (sound : s.Sound (foldShardOf f.accountID))
    (landed : s.addSlow f delta = (s', counted)) : s'.Sound (foldShardOf f.accountID) := by
  unfold addSlow at landed
  split at landed
  next j found =>
    cases landed
    obtain ⟨claimed, key⟩ := slowMatch_spec found
    exact sound.update claimed (congrArg (foldShardOf ·.accountID) key)
  · split at landed <;> cases landed
    · exact sound.update (by simp [claim]) rfl
    · exact ⟨sound.clean, sound.placed⟩

theorem sound_fresh {cap overflow : Nat} {cap_pos : 0 < cap} {cap_le : cap ≤ foldCellShardCapMax} :
    (fresh cap overflow cap_pos cap_le : FoldShard C).Sound i :=
  ⟨fun _ _ => rfl, fun _ inUse => absurd rfl inUse⟩

theorem grow_sound (sound : s.Sound i) : s.grow.Sound i := by
  unfold grow
  split
  · exact sound_fresh
  · exact sound

theorem drain_sound [DecidableEq C] (sound : s.Sound i) (curMinute : Int64) :
    (s.drain curMinute).1.Sound i := by
  constructor
  · intro (j : Fin s.cap)
    show ((s.slots j).drained curMinute).state = .empty → ((s.slots j).drained curMinute).count = 0
    unfold drained
    split
    · exact sound.clean j
    · exact fun _ => rfl
  · intro (j : Fin s.cap)
    show ((s.slots j).drained curMinute).state ≠ .empty →
      foldShardOf ((s.slots j).drained curMinute).key.accountID = i
    unfold drained
    split
    · exact sound.placed j
    next inUse => exact fun _ => sound.placed j inUse

theorem FoldCellTable.Sound.setShard (sound : t.Sound) (own : s.Sound i) : (t.setShard i s).Sound :=
  (forall_update_iff t.shards fun i s => s.Sound i).mpr ⟨own, fun k _ => sound k⟩

theorem sound_initial : (newFoldCellTable : FoldCellTable C).Sound := fun _ => sound_fresh

/-- A fact is counted in its own shard only. -/
theorem FoldCellTable.Sound.stored_eq (sound : t.Sound) (f : AttemptFact) :
    t.stored f = (t.shards (foldShardOf f.accountID)).stored f := by
  refine sum_eq_single _ (fun i _ other => ?_) (fun absent => absurd (mem_univ _) absent)
  refine sum_eq_zero fun j _ => if_neg ?_
  rintro ⟨inUse, key⟩
  have own := (sound i).placed j inUse
  rw [key] at own
  exact other own.symm

theorem add_stored {j : Fin s.cap}
    (matched : (s.slots j).state ≠ .empty ∧ (s.slots j).key = f) :
    (s.update j ((s.slots j).add delta)).stored g = s.stored g + if f = g then delta else 0 := by
  rw [stored_update, holds_add matched.1 matched.2]

/-- A claim would take over a tombstone that counts something. -/
def FoldShard.usurped [DecidableEq C] (s : FoldShard C) (f : AttemptFact) : Bool :=
  s.slowMatch f = none ∧
    ((s.claimable f).any fun j => (s.slots j).state = .tomb ∧ (s.slots j).count ≠ 0) = true

theorem claimed_zero [DecidableEq C] {j : Fin s.cap} (sound : s.Sound i)
    (kept : s.usurped f = false) (unmatched : s.slowMatch f = none)
    (found : s.claimable f = some j) : (s.slots j).count = 0 := by
  have free := claimable_spec found
  cases state : (s.slots j).state with
  | empty => exact sound.clean j state
  | live => exact absurd state free
  | tomb =>
    by_contra counted
    simp [usurped, unmatched, found, state, counted] at kept

theorem addSlow_stored [DecidableEq C] {counted : Bool} (sound : s.Sound i)
    (kept : s.usurped f = false) (landed : s.addSlow f delta = (s', counted)) (g : AttemptFact) :
    s'.stored g = s.stored g + if counted = true ∧ f = g then delta else 0 := by
  unfold addSlow at landed
  split at landed
  next j found =>
    cases landed
    simp [add_stored (slowMatch_spec found)]
  next unmatched =>
    split at landed <;> cases landed
    next j found =>
      have zero := claimed_zero sound kept unmatched found
      simp [stored_update, holds, claim, zero]
    · simp [stored]

theorem grow_stored (kept : s.mustGrow = true → ∀ j, (s.slots j).count = 0) :
    s.grow.stored g = s.stored g := by
  unfold grow
  split
  next grows =>
    have before : s.stored g = 0 :=
      sum_eq_zero fun j _ => holds_zero (kept grows j)
    rw [before]
    exact sum_eq_zero fun j _ => holds_zero rfl
  · rfl

/-- What is handed out and what is stored is what was accepted. -/
def FoldCellTable.Balanced (t : FoldCellTable C) : Prop :=
  ∀ f, sumOf t.handed f + t.stored f = sumOf t.accepted f

theorem FoldCellTable.stored_setShard (g : AttemptFact) :
    (t.setShard i s).stored g = t.stored g + (s.stored g - (t.shards i).stored g) :=
  sum_update (FoldShard.stored · g) t.shards i s

theorem FoldCellTable.Balanced.still (balanced : t.Balanced)
    (same : ∀ g, s.stored g = (t.shards i).stored g) : (t.setShard i s).Balanced := by
  intro g
  rw [FoldCellTable.stored_setShard, same g, sub_self, add_zero]
  exact balanced g

theorem FoldCellTable.Balanced.accept (balanced : t.Balanced)
    (counts : ∀ g, s.stored g = (t.shards i).stored g + if f = g then delta else 0) :
    ((t.setShard i s).accept f delta).Balanced := by
  intro g
  show sumOf t.handed g + (t.setShard i s).stored g = sumOf (t.accepted ++ [(f, delta)]) g
  rw [FoldCellTable.stored_setShard, counts g, sumOf_append, ← balanced g]
  simp only [sumOf_cons, sumOf_nil]
  abel

theorem conserved_initial : (newFoldCellTable : FoldCellTable C).Balanced := by
  intro f
  have none : (newFoldCellTable : FoldCellTable C).stored f = 0 :=
    sum_eq_zero fun i _ => sum_eq_zero fun j _ => holds_zero rfl
  rw [none]
  simp [newFoldCellTable]

variable [DecidableEq C]

theorem FoldCellTable.Balanced.drain (balanced : t.Balanced) (curMinute : Int64) :
    FoldCellTable.Balanced
      { t.setShard i ((t.shards i).drain curMinute).1 with
        handed := t.handed ++ ((t.shards i).drain curMinute).2 } := by
  intro g
  show sumOf (t.handed ++ ((t.shards i).drain curMinute).2) g +
    (t.setShard i ((t.shards i).drain curMinute).1).stored g = sumOf t.accepted g
  rw [sumOf_append, FoldCellTable.stored_setShard, drain_handed, drain_stored, ← balanced g]
  abel

/-- The two steps that lose counts: a claim over a tombstone that counts something, and a
growth of a shard that does. -/
def lossy (t : FoldCellTable C) : Call C → Bool
  | .addSlow f _ => (t.shards (foldShardOf f.accountID)).usurped f
  | .grow shard => (t.shards shard).mustGrow && decide (∃ j, ((t.shards shard).slots j).count ≠ 0)
  | _ => false

def lossless (σ : Pool (FoldCellTable C) (Call C)) : Label (Call C) Unit → Bool
  | .start _ => true
  | .step k _ => (σ.procs[k]?).all fun call => !lossy σ.shared call

inductive TableStep (t : FoldCellTable C) : Call C → FoldCellTable C → Prop
  | none {call : Call C} : TableStep t call t
  | fast {f : AttemptFact} {delta : C} {s : FoldShard C} :
      (t.shards (foldShardOf f.accountID)).addFast f delta = some s →
      TableStep t (.add f delta) ((t.setShard (foldShardOf f.accountID) s).accept f delta)
  | slow {f : AttemptFact} {delta : C} {s : FoldShard C} :
      (t.shards (foldShardOf f.accountID)).addSlow f delta = (s, true) →
      TableStep t (.addSlow f delta) ((t.setShard (foldShardOf f.accountID) s).accept f delta)
  | full {f : AttemptFact} {delta : C} {s : FoldShard C} :
      (t.shards (foldShardOf f.accountID)).addSlow f delta = (s, false) →
      TableStep t (.addSlow f delta) (t.setShard (foldShardOf f.accountID) s)
  | drain {curMinute : Int64} {i : Fin foldShardCount} {total : C} :
      TableStep t (.drain curMinute i total)
        { t.setShard i ((t.shards i).drain curMinute).1 with
          handed := t.handed ++ ((t.shards i).drain curMinute).2 }
  | grow {shard : Fin foldShardCount} :
      TableStep t (.grow shard) (t.setShard shard (t.shards shard).grow)

theorem stepCall_cases {k : Nat} {input : Unit} {call call' : Call C}
    (stepped : stepCall k input t call = some (t', call')) : TableStep t call t' := by
  cases call <;> simp only [stepCall, reduceCtorEq] at stepped
  case add f delta =>
    split at stepped
    next s landed =>
      cases stepped
      exact .fast landed
    · cases stepped
      exact .none
  case addSlow f delta =>
    split at stepped
    next s landed =>
      cases stepped
      exact .slow landed
    next s landed =>
      cases stepped
      exact .full landed
  case drain curMinute next total =>
    split at stepped
    next inside =>
      cases stepped
      exact .drain (i := ⟨next, inside⟩)
    · cases stepped
  case growIfNeeded next =>
    split at stepped
    · split at stepped
      · cases stepped
        exact .none
      · cases stepped
        exact .none
    · cases stepped
  case loadPct shard =>
    split at stepped
    · cases stepped
      exact .none
    · cases stepped
      exact .none
  case grow shard =>
    cases stepped
    exact .grow

theorem TableStep.sound {call : Call C} (step : TableStep t call t') (sound : t.Sound) :
    t'.Sound := by
  cases step with
  | none => exact sound
  | fast landed => exact sound.setShard (addFast_sound (sound _) landed)
  | slow landed | full landed => exact sound.setShard (addSlow_sound (sound _) landed)
  | drain => exact sound.setShard (drain_sound (sound _) _)
  | grow => exact sound.setShard (grow_sound (sound _))

theorem TableStep.balanced {call : Call C} (step : TableStep t call t') (sound : t.Sound)
    (kept : lossy t call = false) (balanced : t.Balanced) : t'.Balanced := by
  cases step with
  | none => exact balanced
  | fast landed =>
    obtain ⟨j, found, rfl⟩ := map_eq_some_iff.mp landed
    exact balanced.accept fun g => add_stored (fastMatch_spec found)
  | slow landed =>
    refine balanced.accept fun g => ?_
    simpa using addSlow_stored (sound _) kept landed g
  | full landed =>
    refine balanced.still fun g => ?_
    simpa using addSlow_stored (sound _) kept landed g
  | drain => exact balanced.drain _
  | @grow shard =>
    refine balanced.still fun g => grow_stored fun grows j => ?_
    by_contra counted
    have counts : decide (∃ j, ((t.shards shard).slots j).count ≠ 0) = true :=
      decide_eq_true ⟨j, counted⟩
    rw [lossy, grows, counts] at kept
    cases kept

def Holds (p : FoldCellTable C → Prop) (σ : Pool (FoldCellTable C) (Call C)) : Prop := p σ.shared

theorem sound_of_reachable {σ : Pool (FoldCellTable C) (Call C)}
    (reached : Reachable stepCall (fun σ l => legal σ l = true) ⟨newFoldCellTable, []⟩ σ) :
    σ.shared.Sound := by
  suffices all : Holds FoldCellTable.Sound σ from all
  refine reached.invariant ?_ ?_ ?_
  · exact sound_initial
  · exact fun t procs call _ before => before
  · exact fun t procs k input call t' call' _ _ stepped before =>
      (stepCall_cases stepped).sound before

/-- In every interleaving without a lossy step, the counts handed out and the counts stored
add up to the accepted deltas, for every fact. -/
theorem counters_conserved {σ : Pool (FoldCellTable C) (Call C)}
    (reached : Reachable stepCall (fun σ l => (legal σ l && lossless σ l) = true)
      ⟨newFoldCellTable, []⟩ σ) (f : AttemptFact) :
    sumOf σ.shared.handed f + σ.shared.stored f = sumOf σ.shared.accepted f := by
  suffices all : Holds (fun t => t.Sound ∧ t.Balanced) σ from all.2 f
  refine reached.invariant ?_ ?_ ?_
  · exact ⟨sound_initial, conserved_initial⟩
  · exact fun t procs call _ before => before
  intro t procs k input call t' call' permitted found stepped before
  obtain ⟨_, kept⟩ := (Bool.and_eq_true _ _).mp permitted
  simp only [lossless, found, all_some, Bool.not_eq_true'] at kept
  have step := stepCall_cases stepped
  exact ⟨step.sound before.1, step.balanced before.1 kept before.2⟩

/-- Two facts of one shard whose probes start at the same slot, a minute apart. -/
def earlyFact : AttemptFact := AttemptFact.zero

def lateFact : AttemptFact := { AttemptFact.zero with minuteBucket := 60, generation := 124 }

def addThenDrain : List (Label (Call Int) Unit) :=
  [.start (.add earlyFact 1), .step 0 (), .step 0 (), .start (.drain 60 0 0), .step 1 ()]

theorem counters_conserved_drained : ∃ σ : Pool (FoldCellTable Int) (Call Int),
    run stepCall (fun σ l => legal σ l && lossless σ l) ⟨newFoldCellTable, []⟩ addThenDrain =
        some σ ∧ σ.shared.handed = [(earlyFact, 1)] ∧
      sumOf σ.shared.handed earlyFact + σ.shared.stored earlyFact =
        sumOf σ.shared.accepted earlyFact := by
  have ends : (run stepCall (fun σ l => legal σ l && lossless σ l)
      (⟨newFoldCellTable, []⟩ : Pool (FoldCellTable Int) (Call Int)) addThenDrain).map
        (fun σ => σ.shared.handed) = some [(earlyFact, 1)] := by
    decide +kernel
  obtain ⟨σ, ran, handed⟩ := map_eq_some_iff.mp ends
  have reached := reachable_of_run ran
  exact ⟨σ, ran, handed, counters_conserved reached earlyFact⟩

/-- A late add counts in the tombstone of its fact, and the next claim takes its count over. -/
def lateAdd : List (Label (Call Int) Unit) :=
  addThenDrain ++ [.start (.add earlyFact 1), .step 2 (),
    .start (.add lateFact 1), .step 3 (), .step 3 ()]

theorem late_add_miscounted : ∃ σ : Pool (FoldCellTable Int) (Call Int),
    run stepCall legal ⟨newFoldCellTable, []⟩ lateAdd = some σ ∧
      sumOf σ.shared.handed earlyFact + σ.shared.stored earlyFact = 1 ∧
      sumOf σ.shared.accepted earlyFact = 2 := by
  have ends : (run stepCall legal
      (⟨newFoldCellTable, []⟩ : Pool (FoldCellTable Int) (Call Int)) lateAdd).map
        (fun σ => (sumOf σ.shared.handed earlyFact +
            (σ.shared.shards (foldShardOf earlyFact.accountID)).stored earlyFact,
          sumOf σ.shared.accepted earlyFact)) = some (1, 2) := by
    decide +kernel
  obtain ⟨σ, ran, counts⟩ := map_eq_some_iff.mp ends
  have sound := sound_of_reachable (reachable_of_run ran)
  refine ⟨σ, ran, ?_, congrArg Prod.snd counts⟩
  rw [sound.stored_eq]
  exact congrArg Prod.fst counts

end C3Api.Quality
