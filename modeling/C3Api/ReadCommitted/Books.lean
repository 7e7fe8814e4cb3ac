import C3Api.ReadCommitted.Contract

/-!
# Double entry over a table

An account adds up one share per row; a logged event posts an amount to each
account. The books balance if every account stands where the events have left it.
A transaction keeps them balanced if its writes move each account by what its
event posts, so it is enough to follow the two side by side, write by write.
-/

namespace ReadCommitted

open List

variable {K : Type} [DecidableEq K] {V : K → Type} {O : Type} [DecidableEq O]
variable {E X T A : Type}

structure Books (V : K → Type) (E A : Type) where
  share : A → (k : K) → V k → Int
  posting : A → E → Int

namespace Books

variable (b : Books V E A)

def posted (a : A) (log : List E) : Int := (log.map (b.posting a)).sum

def Balanced (base : Table V) (w : World V E) : Prop :=
  ∀ a, tally (b.share a) w.db = tally (b.share a) base + b.posted a w.log

/-- What the writes of a transaction have done so far: the amount they moved each
account by, and a relation that every row has kept. -/
structure Pending (R : (k : K) → Option (V k) → Option (V k) → Prop) (moved : A → Int)
    (d : Table V) (ws : Writes V) : Prop where
  change : ∀ a, change (b.share a) d ws = moved a
  moves : Moves R d ws

variable {b}

omit [DecidableEq K] in
@[simp] theorem posted_append (a : A) (log events : List E) :
    b.posted a (log ++ events) = b.posted a log + b.posted a events := by
  simp [posted]

omit [DecidableEq K] in
@[simp] theorem posted_singleton (a : A) (e : E) : b.posted a [e] = b.posting a e := by
  simp [posted]

omit [DecidableEq K] in
theorem posted_eq_mul_countP {a : A} {log : List E} (n : Int) (p : E → Bool)
    (counts : ∀ e ∈ log, b.posting a e = if p e then n else 0) :
    b.posted a log = n * log.countP p := by
  induction log with
  | nil => exact (mul_zero n).symm
  | cons e log ih =>
    have rest := ih (fun e' member => counts e' (mem_cons_of_mem e member))
    unfold posted at rest ⊢
    rw [map_cons, sum_cons, rest, counts e mem_cons_self, countP_cons]
    split <;> simp [mul_add, add_comm]

omit [DecidableEq K] in
theorem posted_eq_countP {a : A} {log : List E} (p : E → Bool)
    (counts : ∀ e ∈ log, b.posting a e = if p e then 1 else 0) : b.posted a log = log.countP p := by
  rw [posted_eq_mul_countP 1 p counts, one_mul]

theorem Balanced.commit {base : Table V} {w : World V E} {ws : Writes V} {events : List E}
    (balanced : b.Balanced base w) (moved : ∀ a, change (b.share a) w.db ws = b.posted a events) :
    b.Balanced base (w.commit ws events) := by
  intro a
  simp only [World.commit]
  rw [tally_overlay, moved, balanced a, posted_append, add_assoc]

namespace Pending

variable {R : (k : K) → Option (V k) → Option (V k) → Prop} {moved : A → Int} {d : Table V}
variable {ws : Writes V}

theorem nil (refl : ∀ k v, R k v v) : b.Pending R (fun _ => 0) d [] :=
  ⟨fun _ => change_nil _ d, .nil refl⟩

theorem cons (trans : ∀ k u v x, R k u v → R k v x → R k u x) (pending : b.Pending R moved d ws)
    {k : K} {v : Option (V k)} (step : R k ((overlay d ws).lookup k) v) :
    b.Pending R
      (fun a => moved a + (weight (b.share a) k v - weight (b.share a) k ((overlay d ws).lookup k)))
      d (⟨k, v⟩ :: ws) := by
  refine ⟨fun a => ?_, pending.moves.cons trans step⟩
  rw [change_cons, pending.change a]
  abel

theorem of_moved {moved' : A → Int} (pending : b.Pending R moved d ws) (same : ∀ a, moved a = moved' a) :
    b.Pending R moved' d ws := ⟨fun a => (pending.change a).trans (same a), pending.moves⟩

theorem mono {R' : (k : K) → Option (V k) → Option (V k) → Prop} (pending : b.Pending R moved d ws)
    (wider : ∀ k v v', R k v v' → R' k v v') : b.Pending R' moved d ws :=
  ⟨pending.change, fun k => wider k _ _ (pending.moves k)⟩

theorem later {sys : System V O E X T} {c : Contract sys} {t : T} {h : Held V O}
    {w w' : World V E} (refl : ∀ k v, R k v v) (pending : b.Pending R moved w.db h.writes)
    (later : c.Later t h w w') : b.Pending R moved w'.db h.writes :=
  ⟨fun a => (later.change _).trans (pending.change a), later.moves refl pending.moves⟩

end Pending

end Books

end ReadCommitted
