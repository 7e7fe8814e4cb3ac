import Mathlib.Data.List.Induction

/-!
# Histories

A list of events, oldest first, each of which is judged by the events before it.
-/

namespace History

open List

variable {E : Type} {Q : List E → E → Prop} {history : List E}

/-- Every event stands in the given relation to its past. -/
def Always (Q : List E → E → Prop) (history : List E) : Prop :=
  ∀ before e after, history = before ++ e :: after → Q before e

theorem always_nil : Always Q [] := by
  intro before e after split
  simp at split

theorem Always.snoc (always : Always Q history) {e : E} (own : Q history e) :
    Always Q (history ++ [e]) := by
  intro before e' after split
  rcases eq_nil_or_concat after with rfl | ⟨front, last, rfl⟩
  · obtain ⟨rfl, same⟩ := append_inj' split rfl
    cases same
    exact own
  · rw [concat_eq_append, ← cons_append, ← append_assoc] at split
    exact always before e' front (append_inj' split rfl).1

theorem Always.append (always : Always Q history) {es : List E}
    (own : ∀ front e, front ++ [e] <+: es → Q (history ++ front) e) : Always Q (history ++ es) := by
  induction es using List.reverseRecOn with
  | nil => rwa [append_nil]
  | append_singleton es e ih =>
    rw [← append_assoc]
    refine (ih fun front e' early => ?_).snoc (own es e prefix_rfl)
    exact own front e' (early.trans (prefix_append _ _))

end History
