import Mathlib.Order.Basic

/-!
# Sequence locks

Writers raise a counter with every change of what it guards.  A reader that finds the same
value of the counter before and after has seen, at every moment in between, what was there
at the end.
-/

namespace Seqlock

universe u

variable {State : Type u} {Counter : Type u} {Guarded : Type u} [PartialOrder Counter]

/-- A later state: the counter never falls, and what it guards changes only when it rises. -/
structure Later (counter : State → Counter) (guarded : State → Guarded)
    (before after : State) : Prop where
  counter_le : counter before ≤ counter after
  guarded_eq : counter after = counter before → guarded after = guarded before

namespace Later

variable {counter : State → Counter} {guarded : State → Guarded} {first middle last : State}

theorem refl (counter : State → Counter) (guarded : State → Guarded) (state : State) :
    Later counter guarded state state :=
  ⟨le_refl _, fun _ => rfl⟩

variable (start : Later counter guarded first middle) (finish : Later counter guarded middle last)

include start finish

/-- The counter did not move in either part when it has not moved on the whole. -/
theorem middle_eq (same : counter last = counter first) : counter middle = counter first :=
  le_antisymm (same ▸ finish.counter_le) start.counter_le

theorem trans : Later counter guarded first last where
  counter_le := le_trans start.counter_le finish.counter_le
  guarded_eq same := by
    have still := start.middle_eq finish same
    rw [finish.guarded_eq (same.trans still.symm), start.guarded_eq still]

theorem seen (same : counter last = counter first) : guarded middle = guarded last :=
  (finish.guarded_eq (same.trans (start.middle_eq finish same).symm)).symm

end Later

end Seqlock
