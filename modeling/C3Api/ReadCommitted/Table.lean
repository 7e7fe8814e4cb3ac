import Mathlib.Data.List.AList
import Mathlib.Algebra.Order.BigOperators.Group.List
import Mathlib.Tactic.Abel

/-!
# Tables and pending writes

A table is a finite map from row keys to rows of the key's own type. The writes a
transaction has not committed yet are a list, newest first, laid over the
committed table. A tally adds up one value per row; what a list of writes adds to
a tally depends only on the committed versions of the rows it writes.
-/

namespace ReadCommitted

open List AList

variable {K : Type} {V : K → Type}

abbrev Table (V : K → Type) : Type := AList V

abbrev Writes (V : K → Type) : Type := List ((k : K) × Option (V k))

def writtenKeys (ws : Writes V) : List K := ws.map Sigma.fst

variable {k : K} {ws : Writes V} (d : Table V)

@[simp] theorem writtenKeys_nil : writtenKeys ([] : Writes V) = [] := rfl

@[simp] theorem mem_writtenKeys_cons {j : K} {v : Option (V k)} :
    j ∈ writtenKeys (⟨k, v⟩ :: ws) ↔ j = k ∨ j ∈ writtenKeys ws := by
  simp [writtenKeys]

theorem writtenKeys_append (ws ws' : Writes V) :
    writtenKeys (ws ++ ws') = writtenKeys ws ++ writtenKeys ws' := map_append

section

variable {M : Type} [AddCommGroup M]

/-- The sum of one value per row. -/
def tally (q : (k : K) → V k → M) (d : Table V) : M :=
  (d.entries.map (fun row => q row.1 row.2)).sum

def weight (q : (k : K) → V k → M) (k : K) (v : Option (V k)) : M :=
  match v with
  | some row => q k row
  | none => 0

@[simp] theorem weight_some (q : (k : K) → V k → M) (k : K) (row : V k) :
    weight q k (some row) = q k row := rfl

@[simp] theorem weight_none (q : (k : K) → V k → M) (k : K) :
    weight q k none = 0 := rfl

@[simp] theorem tally_empty (q : (k : K) → V k → M) : tally q (∅ : Table V) = 0 := rfl

end

variable [DecidableEq K]

def put (d : Table V) (k : K) (v : Option (V k)) : Table V :=
  match v with
  | some row => d.insert k row
  | none => d.erase k

@[simp] theorem lookup_put_self (k : K) (v : Option (V k)) : (put d k v).lookup k = v := by
  cases v with
  | none => exact lookup_erase k d
  | some row => exact lookup_insert d

theorem lookup_put_of_ne {d : Table V} {j : K} (v : Option (V k)) (different : j ≠ k) :
    (put d k v).lookup j = d.lookup j := by
  cases v with
  | none => exact lookup_erase_ne different
  | some row => exact lookup_insert_ne different

section

variable {M : Type} [AddCommGroup M]

theorem sum_kerase (q : (k : K) → V k → M) (k : K) (rows : List (Sigma V)) :
    (rows.map (fun row => q row.1 row.2)).sum =
      weight q k (rows.dlookup k) + ((rows.kerase k).map (fun row => q row.1 row.2)).sum := by
  induction rows with
  | nil => simp
  | cons row rows ih =>
    obtain ⟨j, v⟩ := row
    by_cases same : k = j
    · subst same
      simp
    · rw [dlookup_cons_ne _ _ same, kerase_cons_ne same]
      simp only [map_cons, sum_cons]
      rw [ih]
      abel

/-- Replacing a row moves the tally by the difference of its two versions. -/
theorem tally_put (q : (k : K) → V k → M) (d : Table V) (k : K) (v : Option (V k)) :
    tally q (put d k v) = tally q d - weight q k (d.lookup k) + weight q k v := by
  have split := sum_kerase q k d.entries
  have erased : tally q (d.erase k) = tally q d - weight q k (d.lookup k) := by
    unfold tally
    rw [split]
    change _ = weight q k (d.lookup k) + _ - weight q k (d.lookup k)
    rw [add_sub_cancel_left]
    rfl
  cases v with
  | none =>
    rw [weight_none, add_zero, ← erased]
    rfl
  | some row =>
    rw [← erased, add_comm]
    rfl

omit [AddCommGroup M] in
/-- What holds of the share of every row holds of every share that is summed. -/
theorem forall_shares {q : (k : K) → V k → M} {d : Table V} {P : M → Prop}
    (each : ∀ k row, d.lookup k = some row → P (q k row)) :
    ∀ share ∈ d.entries.map (fun row => q row.1 row.2), P share := by
  intro share listed
  obtain ⟨⟨k, row⟩, member, rfl⟩ := mem_map.mp listed
  exact each k row (mem_lookup_iff.mpr member)

theorem tally_eq_zero {q : (k : K) → V k → M} {d : Table V}
    (each : ∀ k row, d.lookup k = some row → q k row = 0) : tally q d = 0 :=
  sum_eq_zero (forall_shares each)

theorem tally_nonneg {q : (k : K) → V k → Int} {d : Table V}
    (each : ∀ k row, d.lookup k = some row → 0 ≤ q k row) : 0 ≤ tally q d :=
  sum_nonneg (forall_shares each)

omit [DecidableEq K] in
theorem tally_sub (q q' : (k : K) → V k → M) (d : Table V) :
    tally q d - tally q' d = tally (fun k row => q k row - q' k row) d := by
  unfold tally
  induction d.entries with
  | nil => simp
  | cons row rows ih =>
    simp only [map_cons, sum_cons, ← ih]
    abel

theorem tally_single (q : (k : K) → V k → M) (d : Table V) (k : K)
    (others : ∀ j row, d.lookup j = some row → j ≠ k → q j row = 0) :
    tally q d = weight q k (d.lookup k) := by
  have zero : tally q (put d k none) = 0 := by
    apply tally_eq_zero
    intro j row found
    by_cases same : j = k
    · subst same
      rw [lookup_put_self] at found
      cases found
    · rw [lookup_put_of_ne none same] at found
      exact others j row found same
  rw [tally_put, weight_none, add_zero] at zero
  exact sub_eq_zero.mp zero

end

/-- The table a transaction sees: the committed rows under its own writes. -/
def overlay (d : Table V) : Writes V → Table V
  | [] => d
  | write :: ws => put (overlay d ws) write.1 write.2

@[simp] theorem overlay_nil : overlay d [] = d := rfl

@[simp] theorem overlay_cons (k : K) (v : Option (V k)) (ws : Writes V) :
    overlay d (⟨k, v⟩ :: ws) = put (overlay d ws) k v := rfl

theorem lookup_overlay_of_notMem (fresh : k ∉ writtenKeys ws) :
    (overlay d ws).lookup k = d.lookup k := by
  induction ws with
  | nil => rfl
  | cons write ws ih =>
    obtain ⟨j, v⟩ := write
    rw [mem_writtenKeys_cons, not_or] at fresh
    rw [overlay_cons, lookup_put_of_ne v fresh.1, ih fresh.2]

theorem lookup_overlay_congr {d d' : Table V} (ws : Writes V)
    (same : k ∈ writtenKeys ws ∨ d.lookup k = d'.lookup k) :
    (overlay d ws).lookup k = (overlay d' ws).lookup k := by
  induction ws with
  | nil => exact same.resolve_left not_mem_nil
  | cons write ws ih =>
    obtain ⟨j, v⟩ := write
    rw [overlay_cons, overlay_cons]
    by_cases equal : k = j
    · subst equal
      rw [lookup_put_self, lookup_put_self]
    · rw [lookup_put_of_ne v equal, lookup_put_of_ne v equal]
      exact ih (same.imp_left fun written => (mem_writtenKeys_cons.mp written).resolve_left equal)

/-- A written row no longer depends on its committed version. -/
theorem lookup_overlay_of_mem (d' : Table V) (written : k ∈ writtenKeys ws) :
    (overlay d ws).lookup k = (overlay d' ws).lookup k :=
  lookup_overlay_congr ws (.inl written)

/-- Among writes of different rows, a row is what was written. -/
theorem lookup_overlay_of_write (distinct : (writtenKeys ws).Nodup) {v : Option (V k)}
    (member : ⟨k, v⟩ ∈ ws) : (overlay d ws).lookup k = v := by
  induction ws with
  | nil => cases member
  | cons write ws ih =>
    obtain ⟨fresh, distinct'⟩ := nodup_cons.mp distinct
    rcases mem_cons.mp member with rfl | there
    · exact lookup_put_self _ _ _
    have different : k ≠ write.1 := fun same => fresh (same ▸ mem_map_of_mem there)
    rw [overlay, lookup_put_of_ne write.2 different]
    exact ih distinct' there

section

variable {M : Type} [AddCommGroup M]

/-- What the writes add to a tally. -/
def change (q : (k : K) → V k → M) (d : Table V) (ws : Writes V) : M :=
  tally q (overlay d ws) - tally q d

variable (q : (k : K) → V k → M) (d : Table V)

@[simp] theorem change_nil : change q d [] = 0 := by
  simp [change]

theorem change_cons (q : (k : K) → V k → M) (d : Table V) (k : K) (v : Option (V k))
    (ws : Writes V) :
    change q d (⟨k, v⟩ :: ws) =
      change q d ws - weight q k ((overlay d ws).lookup k) + weight q k v := by
  unfold change
  rw [overlay_cons, tally_put]
  abel

/-- The change depends only on the committed versions of the written rows. -/
theorem change_congr {d d' : Table V} (same : ∀ k ∈ writtenKeys ws, d.lookup k = d'.lookup k) :
    change q d ws = change q d' ws := by
  induction ws with
  | nil => simp
  | cons write ws ih =>
    obtain ⟨k, v⟩ := write
    have earlier : change q d ws = change q d' ws :=
      ih (fun j member => same j (mem_writtenKeys_cons.mpr (.inr member)))
    have head := lookup_overlay_congr ws (.inr (same k (mem_writtenKeys_cons.mpr (.inl rfl))))
    rw [change_cons, change_cons, earlier, head]

theorem change_eq_zero (weightless : ∀ k ∈ writtenKeys ws, ∀ row, q k row = 0) :
    change q d ws = 0 := by
  induction ws with
  | nil => simp
  | cons write ws ih =>
    obtain ⟨k, v⟩ := write
    have zero : ∀ version, weight q k version = 0 := by
      intro version
      cases version with
      | none => rfl
      | some row => exact weightless k (mem_writtenKeys_cons.mpr (.inl rfl)) row
    rw [change_cons, zero, zero,
      ih (fun j member => weightless j (mem_writtenKeys_cons.mpr (.inr member)))]
    simp

/-- Writes of different rows change a tally row by row. -/
theorem change_of_nodup (distinct : (writtenKeys ws).Nodup) :
    change q d ws =
      (ws.map fun write => weight q write.1 write.2 - weight q write.1 (d.lookup write.1)).sum := by
  induction ws with
  | nil => simp
  | cons write ws ih =>
    obtain ⟨fresh, distinct'⟩ := nodup_cons.mp distinct
    rw [change_cons, lookup_overlay_of_notMem d fresh, ih distinct', map_cons, sum_cons]
    abel

theorem tally_overlay (ws : Writes V) : tally q (overlay d ws) = tally q d + change q d ws := by
  unfold change
  abel

end

/-- The writes move every row along `R`. -/
def Moves (R : (k : K) → Option (V k) → Option (V k) → Prop) (d : Table V) (ws : Writes V) :
    Prop :=
  ∀ k, R k (d.lookup k) ((overlay d ws).lookup k)

variable {R : (k : K) → Option (V k) → Option (V k) → Prop} {d d' : Table V}

theorem Moves.nil (refl : ∀ k v, R k v v) : Moves R d [] := fun k => refl k _

theorem Moves.cons (trans : ∀ k u v x, R k u v → R k v x → R k u x) (moves : Moves R d ws)
    {k : K} {v : Option (V k)} (step : R k ((overlay d ws).lookup k) v) :
    Moves R d (⟨k, v⟩ :: ws) := by
  intro j
  rw [overlay_cons]
  by_cases same : j = k
  · subst same
    rw [lookup_put_self]
    exact trans j _ _ _ (moves j) step
  · rw [lookup_put_of_ne v same]
    exact moves j

theorem Moves.congr (refl : ∀ k v, R k v v) (moves : Moves R d ws)
    (same : ∀ k ∈ writtenKeys ws, d'.lookup k = d.lookup k) : Moves R d' ws := by
  intro k
  by_cases written : k ∈ writtenKeys ws
  · rw [same k written, lookup_overlay_of_mem d' d written]
    exact moves k
  · rw [lookup_overlay_of_notMem d' written]
    exact refl k _

end ReadCommitted
