import Mathlib.Data.List.Basic

/-!
# Lines of a stream

A stream is cut after every delimiter; what follows the last one is its rest.
A reader that holds only a part of the stream may cut off the lines it sees:
`split_line` is the step that says so, whatever is still to come.
-/

namespace C3Api.Stream

open List

variable {α : Type*} [DecidableEq α]

section

variable (delimiter : α)

/-- The lines of a stream, each with its delimiter, and the rest after the last of them. -/
def split : List α → List (List α) × List α
  | [] => ([], [])
  | x :: xs =>
    if x = delimiter then ([x] :: (split xs).1, (split xs).2)
    else
      match (split xs).1 with
      | [] => ([], x :: (split xs).2)
      | line :: lines => ((x :: line) :: lines, (split xs).2)

variable {delimiter}

theorem split_of_notMem {xs : List α} (absent : delimiter ∉ xs) :
    split delimiter xs = ([], xs) := by
  induction xs with
  | nil => rfl
  | cons x xs ih =>
    have other : x ≠ delimiter := fun same => absent (by simp [same])
    have later : split delimiter xs = ([], xs) :=
      ih fun found => absent (mem_cons_of_mem _ found)
    simp [split, other, later]

theorem split_line {body : List α} (absent : delimiter ∉ body) (rest : List α) :
    split delimiter (body ++ delimiter :: rest) =
      ((body ++ [delimiter]) :: (split delimiter rest).1, (split delimiter rest).2) := by
  induction body with
  | nil => simp [split]
  | cons x body ih =>
    have other : x ≠ delimiter := fun same => absent (by simp [same])
    have later := ih fun found => absent (mem_cons_of_mem _ found)
    simp [split, other, later]

theorem split_flatten (xs : List α) :
    (split delimiter xs).1.flatten ++ (split delimiter xs).2 = xs := by
  induction xs with
  | nil => rfl
  | cons x xs ih =>
    by_cases same : x = delimiter
    · simpa [split, same] using ih
    cases lines : (split delimiter xs).1 with
    | nil | cons line rest =>
      simpa [split, same, lines] using ih

end

theorem eq_append_of_idxOf? {x : α} {xs : List α} {i : Nat} (found : xs.idxOf? x = some i) :
    ∃ before after, xs = before ++ x :: after ∧ x ∉ before ∧ before.length = i := by
  obtain ⟨bound, here, earlier⟩ := List.idxOf?_eq_some_iff.mp found
  refine ⟨xs.take i, xs.drop (i + 1), ?_, ?_, length_take_of_le (Nat.le_of_lt bound)⟩
  · rw [← here, ← drop_eq_getElem_cons bound, take_append_drop]
  intro member
  obtain ⟨j, before, same⟩ := getElem_of_mem member
  rw [length_take] at before
  rw [getElem_take] at same
  exact earlier j (by omega) same

variable {β : Type*}

def slice (xs : List β) (start stop : Nat) : List β :=
  (xs.take stop).drop start

variable {start stop : Nat} (xs : List β)

theorem length_slice {xs : List β} (bound : stop ≤ xs.length) :
    (slice xs start stop).length = stop - start := by
  simp [slice, bound]

theorem slice_append_slice {xs : List β} {a b c : Nat} (ab : a ≤ b) (bc : b ≤ c) :
    slice xs a b ++ slice xs b c = slice xs a c := by
  have taken : xs.take b = (xs.take c).take b := by rw [take_take, Nat.min_eq_left bc]
  unfold slice
  rw [taken]
  by_cases short : (xs.take c).length ≤ b
  · rw [take_of_length_le short, drop_of_length_le short, append_nil]
  conv_rhs => rw [← take_append_drop b (xs.take c)]
  rw [drop_append_of_le_length]
  rw [length_take]
  omega

theorem slice_append_left {xs : List β} (bound : stop ≤ xs.length) (ys : List β) (start : Nat) :
    slice (xs ++ ys) start stop = slice xs start stop := by
  unfold slice
  rw [take_append_of_le_length bound]

theorem slice_take {limit : Nat} (bound : stop ≤ limit) :
    slice (xs.take limit) start stop = slice xs start stop := by
  unfold slice
  rw [take_take, Nat.min_eq_left bound]

theorem slice_slice {limit : Nat} (bound : stop ≤ limit) :
    slice (slice xs start limit) 0 (stop - start) = slice xs start stop := by
  unfold slice
  rw [drop_zero, take_drop, take_take]
  rcases Nat.le_total start stop with inside | outside
  · rw [show min (start + (stop - start)) limit = stop by omega]
  rw [drop_of_length_le, drop_of_length_le]
  · exact Nat.le_trans (length_take_le _ _) outside
  · exact Nat.le_trans (length_take_le _ _) (by omega)

end C3Api.Stream
