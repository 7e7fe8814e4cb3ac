import Mathlib.Data.List.Basic

/-!
# Buffered writing

A writer with a buffer of `size` elements over a destination whose calls may fail
part way. A failure is sticky. As long as there is none, what has reached the
destination followed by what is still buffered is what has been written.
-/

namespace C3Api.Stream

open List

/-- A buffered writer; `wire` is what its destination has taken, over `calls` calls. -/
structure Writer (α : Type*) where
  wire : List α := []
  buffer : List α := []
  failed : Bool := false
  calls : Nat := 0

namespace Writer

variable {α : Type*}

def sent (w : Writer α) : List α := w.wire ++ w.buffer

-- The outcome of each call of the destination: `some n` is a failure after `n` elements.
variable (outcome : Nat → Option Nat)

def call (w : Writer α) (p : List α) : Writer α :=
  match outcome w.calls with
  | none => { w with wire := w.wire ++ p, calls := w.calls + 1 }
  | some n => { w with wire := w.wire ++ p.take n, failed := true, calls := w.calls + 1 }

/-- Hand the buffer over; after a failure what was not taken stays buffered. -/
def flush (w : Writer α) : Writer α :=
  if w.failed then w
  else if w.buffer.isEmpty then w
  else
    match outcome w.calls with
    | none => { w with wire := w.wire ++ w.buffer, buffer := [], calls := w.calls + 1 }
    | some n =>
      { w with
        wire := w.wire ++ w.buffer.take n
        buffer := w.buffer.drop n
        failed := true
        calls := w.calls + 1 }

theorem flush_cases (w : Writer α) (working : w.failed = false) :
    ((flush outcome w).failed = false ∧ (flush outcome w).buffer = [] ∧
        (flush outcome w).sent = w.sent) ∨
      (flush outcome w).failed = true ∧ ∃ k, outcome k ≠ none := by
  unfold flush
  rw [if_neg (by simp [working])]
  by_cases idle : w.buffer.isEmpty = true
  · rw [if_pos idle]
    exact .inl ⟨working, isEmpty_iff.mp idle, rfl⟩
  · rw [if_neg idle]
    cases taken : outcome w.calls with
    | none => exact .inl ⟨working, rfl, by simp [sent]⟩
    | some n => exact .inr ⟨rfl, w.calls, by simp [taken]⟩

variable (size : Nat)

def available (w : Writer α) : Nat := size - w.buffer.length

/-- Write `p`, with the number of its elements accepted: what does not fit fills the buffer and
goes out with it, and with an empty buffer goes out by itself. -/
def write (w : Writer α) (p : List α) : Writer α × Nat :=
  if w.failed then (w, 0)
  else if p.length ≤ w.available size then ({ w with buffer := w.buffer ++ p }, p.length)
  else if w.buffer.isEmpty then
    (call outcome w p, ((outcome w.calls).getD p.length))
  else
    let n := w.available size
    let flushed := flush outcome { w with buffer := w.buffer ++ p.take n }
    if flushed.failed then (flushed, n)
    else ((write flushed (p.drop n)).1, n + (write flushed (p.drop n)).2)
termination_by w.buffer.length + p.length
decreasing_by
  all_goals
    rename_i held broken
    have working : w.failed = false := by simp_all
    have emptied : flushed.buffer = [] := by
      rcases flush_cases outcome { w with buffer := w.buffer ++ p.take n } working with
        ⟨-, emptied, -⟩ | ⟨failed, -⟩
      · exact emptied
      · exact absurd failed broken
    have some : 0 < w.buffer.length := by
      rw [length_pos_iff]
      simpa using held
    rw [emptied, length_drop, length_nil]
    omega

theorem write_cases (w : Writer α) (p : List α) (working : w.failed = false) :
    ((write outcome size w p).1.failed = false ∧
        (write outcome size w p).1.sent = w.sent ++ p ∧ (write outcome size w p).2 = p.length) ∨
      (write outcome size w p).1.failed = true ∧ ∃ k, outcome k ≠ none := by
  fun_induction write outcome size w p with
  | case1 w p failed => simp [working] at failed
  | case2 w p _ fits => exact .inl ⟨working, by simp [sent], rfl⟩
  | case3 w p _ long idle =>
    cases taken : outcome w.calls with
    | none =>
      refine .inl ⟨?_, ?_, rfl⟩
      · simp [call, taken, working]
      · simp [call, taken, sent, isEmpty_iff.mp idle]
    | some n => exact .inr ⟨by simp [call, taken], w.calls, by simp [taken]⟩
  | case4 w p _ long held n flushed failed =>
    rcases flush_cases outcome { w with buffer := w.buffer ++ p.take n } working with
      ⟨fine, -⟩ | broken
    · exact absurd failed (by simp [flushed, fine])
    · exact .inr broken
  | case5 w p _ long held n flushed fine ih =>
    rcases flush_cases outcome { w with buffer := w.buffer ++ p.take n } working with
      ⟨fine, -, same⟩ | ⟨failed, -⟩
    · rcases ih fine with ⟨done, more, count⟩ | broken
      · refine .inl ⟨done, ?_, ?_⟩
        · have taken : flushed.sent = w.sent ++ p.take n := by
            rw [same]
            simp [sent]
          rw [more, taken, append_assoc, take_append_drop]
        · rw [count, length_drop]
          omega
      · exact .inr broken
    · exact absurd failed fine

end Writer

end C3Api.Stream
