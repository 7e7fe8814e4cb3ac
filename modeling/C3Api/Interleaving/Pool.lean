import Mathlib.Algebra.Order.BigOperators.Group.List
import Mathlib.Algebra.Order.Ring.Int

/-!
# Interleaved atomic steps

A pool is a shared state and a list of processes. One step names a process and
what it reads from outside; the process changes the shared state and moves on, or
has to wait. Processes may start at any time.
-/

namespace Interleaving

open List

variable {S P I : Type}

structure Pool (S P : Type) where
  shared : S
  procs : List P := []

inductive Label (P I : Type) where
  | start (p : P)
  | step (i : Nat) (input : I)

/-- One atomic step of the process with a given index; `none` while it waits and
after its end. -/
abbrev Step (S P I : Type) := Nat → I → S → P → Option (S × P)

def Pool.next (step : Step S P I) (σ : Pool S P) : Label P I → Option (Pool S P)
  | .start p => some { σ with procs := σ.procs ++ [p] }
  | .step i input =>
    match σ.procs[i]? with
    | none => none
    | some p => (step i input σ.shared p).map fun r => ⟨r.1, σ.procs.set i r.2⟩

/-- The run of these labels, as long as `check` accepts each of them where it is
taken. -/
def run (step : Step S P I) (check : Pool S P → Label P I → Bool) (σ : Pool S P) :
    List (Label P I) → Option (Pool S P)
  | [] => some σ
  | l :: ls => if check σ l then (σ.next step l).bind fun next => run step check next ls else none

/-- Runs whose every step is permitted where it is taken. -/
inductive Reachable (step : Step S P I) (permit : Pool S P → Label P I → Prop)
    (σ₀ : Pool S P) : Pool S P → Prop
  | refl : Reachable step permit σ₀ σ₀
  | tail {σ σ' : Pool S P} {l : Label P I} : Reachable step permit σ₀ σ → permit σ l →
      σ.next step l = some σ' → Reachable step permit σ₀ σ'

section

variable {procs : List P} {i j : Nat} {p p' q : P} {Q : Nat → P → Prop}

theorem set_cases (found : (procs.set i p')[j]? = some q) :
    j = i ∧ q = p' ∨ j ≠ i ∧ procs[j]? = some q := by
  by_cases same : j = i
  · subst same
    rw [getElem?_set_self'] at found
    obtain ⟨_, _, rfl⟩ := Option.map_eq_some_iff.mp found
    exact .inl ⟨rfl, rfl⟩
  · rw [getElem?_set_ne (Ne.symm same)] at found
    exact .inr ⟨same, found⟩

theorem append_cases (found : (procs ++ [p])[j]? = some q) :
    j = procs.length ∧ q = p ∨ procs[j]? = some q := by
  rcases Nat.lt_or_ge j procs.length with inside | outside
  · rw [getElem?_append_left inside] at found
    exact .inr found
  · rw [getElem?_append_right outside] at found
    obtain ⟨first, rfl⟩ : j - procs.length = 0 ∧ p = q := by
      simpa [getElem?_singleton] using found
    exact .inl ⟨by omega, rfl⟩

theorem each_set (own : Q i p') (others : ∀ j q, j ≠ i → procs[j]? = some q → Q j q) :
    ∀ j q, (procs.set i p')[j]? = some q → Q j q := by
  intro j q found
  obtain ⟨rfl, rfl⟩ | ⟨different, found⟩ := set_cases found
  · exact own
  · exact others j q different found

theorem each_append (own : Q procs.length p) (others : ∀ j q, procs[j]? = some q → Q j q) :
    ∀ j q, (procs ++ [p])[j]? = some q → Q j q := by
  intro j q found
  obtain ⟨rfl, rfl⟩ | found := append_cases found
  · exact own
  · exact others j q found

end

section

variable {step : Step S P I} {permit : Pool S P → Label P I → Prop} {σ₀ σ σ' : Pool S P}

theorem next_step {i : Nat} {input : I} (stepped : σ.next step (.step i input) = some σ') :
    ∃ p s' p', σ.procs[i]? = some p ∧ step i input σ.shared p = some (s', p') ∧
      σ' = ⟨s', σ.procs.set i p'⟩ := by
  simp only [Pool.next] at stepped
  split at stepped
  · cases stepped
  rename_i p found
  obtain ⟨⟨s', p'⟩, acted, rfl⟩ := Option.map_eq_some_iff.mp stepped
  exact ⟨p, s', p', found, acted, rfl⟩

/-- What holds at first and survives every start and every step holds throughout. -/
theorem Reachable.invariant {Inv : Pool S P → Prop} (reached : Reachable step permit σ₀ σ)
    (initial : Inv σ₀)
    (starts : ∀ s procs p, permit ⟨s, procs⟩ (.start p) → Inv ⟨s, procs⟩ → Inv ⟨s, procs ++ [p]⟩)
    (steps : ∀ s procs i input p s' p', permit ⟨s, procs⟩ (.step i input) →
      procs[i]? = some p → step i input s p = some (s', p') → Inv ⟨s, procs⟩ →
      Inv ⟨s', procs.set i p'⟩) : Inv σ := by
  induction reached with
  | refl => exact initial
  | @tail σ σ' l _ permitted stepped ih =>
    cases l with
    | start p =>
      cases stepped
      exact starts σ.shared σ.procs p permitted ih
    | step i input =>
      obtain ⟨p, s', p', found, acted, rfl⟩ := next_step stepped
      exact steps σ.shared σ.procs i input p s' p' permitted found acted ih

theorem Reachable.trans {σ₁ : Pool S P} (first : Reachable step permit σ₀ σ₁)
    (second : Reachable step permit σ₁ σ) : Reachable step permit σ₀ σ := by
  induction second with
  | refl => exact first
  | tail _ permitted stepped ih =>
    exact .tail ih permitted stepped

theorem Reachable.mono {allow : Pool S P → Label P I → Prop}
    (weaker : ∀ σ l, permit σ l → allow σ l) (reached : Reachable step permit σ₀ σ) :
    Reachable step allow σ₀ σ := by
  induction reached with
  | refl => exact .refl
  | tail _ permitted stepped ih =>
    exact .tail ih (weaker _ _ permitted) stepped

/-- What no process has at its start, a process has because of one of its steps. -/
theorem Reachable.caused {i : Nat} {p : P} (reached : Reachable step permit σ₀ σ)
    (Has : P → Prop) (idle : σ₀.procs = [])
    (starts : ∀ σ p, permit σ (.start p) → ¬ Has p) (found : σ.procs[i]? = some p) (has : Has p) :
    ∃ (before after : Pool S P) (input : I) (q q' : P), Reachable step permit σ₀ before ∧
      permit before (.step i input) ∧ before.procs[i]? = some q ∧ ¬ Has q ∧ Has q' ∧
      step i input before.shared q = some (after.shared, q') ∧
      before.next step (.step i input) = some after ∧ Reachable step permit after σ := by
  induction reached generalizing p with
  | refl => simp [idle] at found
  | @tail σ σ' l first permitted stepped ih =>
    by_cases already : ∃ q, σ.procs[i]? = some q ∧ Has q
    · obtain ⟨q, known, had⟩ := already
      obtain ⟨before, after, input, r, r', caused⟩ := ih known had
      obtain ⟨earlier, allowed, at_, lacked, gained, acted, next, later⟩ := caused
      exact ⟨before, after, input, r, r', earlier, allowed, at_, lacked, gained, acted, next,
        later.tail permitted stepped⟩
    · cases l with
      | start r =>
        cases stepped
        obtain ⟨-, rfl⟩ | known := append_cases found
        · exact (starts σ p permitted has).elim
        · exact (already ⟨p, known, has⟩).elim
      | step j input =>
        obtain ⟨q, s', q', known, acted, rfl⟩ := next_step stepped
        obtain ⟨rfl, rfl⟩ | ⟨-, other⟩ := set_cases found
        · exact ⟨σ, _, input, q, p, first, permitted, known, fun had => already ⟨q, known, had⟩,
            has, acted, stepped, .refl⟩
        · exact (already ⟨p, other, has⟩).elim

theorem reachable_of_run {check : Pool S P → Label P I → Bool} {ls : List (Label P I)}
    (ran : run step check σ ls = some σ') : Reachable step (fun σ l => check σ l = true) σ σ' := by
  induction ls generalizing σ with
  | nil =>
    cases ran
    exact .refl
  | cons l ls ih =>
    unfold run at ran
    split at ran
    next accepted =>
      obtain ⟨next, stepped, rest⟩ := Option.bind_eq_some_iff.mp ran
      exact (Reachable.refl.tail accepted stepped).trans (ih rest)
    · cases ran

end

def total (f : P → Int) (procs : List P) : Int := (procs.map f).sum

variable {f : P → Int} {procs : List P} {i : Nat} {p p' : P}

@[simp] theorem total_nil : total f [] = 0 := rfl

@[simp] theorem total_cons : total f (p :: procs) = f p + total f procs := by
  simp [total]

theorem total_append : total f (procs ++ [p]) = total f procs + f p := by
  simp [total]

theorem total_natCast (f : P → Nat) (procs : List P) :
    total (fun p => (f p : Int)) procs = ((procs.map f).sum : Nat) := by
  induction procs with
  | nil => rfl
  | cons p rest ih => simp [ih]

theorem total_set (found : procs[i]? = some p) :
    total f (procs.set i p') = total f procs - f p + f p' := by
  obtain ⟨bound, rfl⟩ := List.getElem?_eq_some_iff.mp found
  rw [total, map_set, sum_set', dif_pos (by simpa using bound), getElem_map, total]
  omega

theorem le_total (nonneg : ∀ p, 0 ≤ f p) (found : procs[i]? = some p) : f p ≤ total f procs :=
  single_le_sum (forall_mem_map.mpr fun p _ => nonneg p) _ (mem_map_of_mem (mem_of_getElem? found))

theorem total_eq_zero (zero : ∀ p ∈ procs, f p = 0) : total f procs = 0 :=
  sum_eq_zero (forall_mem_map.mpr zero)

theorem total_eq_countP {holds : P → Bool} (counts : ∀ p ∈ procs, f p = if holds p then 1 else 0) :
    total f procs = procs.countP holds := by
  rw [total, map_congr_left counts, sum_map_ite]
  simp [countP_eq_length_filter]

end Interleaving
