import C3Api.ReadCommitted.Contract

/-!
# SQL statements as programs

Single-row statements and loops over rows, with the rule each of them gives for
safety. An update finds its row in the statement's snapshot and checks its
condition again on the newest version before it writes.
-/

namespace ReadCommitted

open List Option

/-- Every order of a list, one for each number. -/
def reorder {A : Type} (n : Nat) : List A → List A
  | [] => []
  | x :: xs => (reorder (n / (xs.length + 1)) xs).insertIdx (n % (xs.length + 1)) x

theorem reorder_perm {A : Type} (n : Nat) (xs : List A) : (reorder n xs).Perm xs := by
  induction xs generalizing n with
  | nil => exact .refl _
  | cons x xs ih =>
    have rest := ih (n / (xs.length + 1))
    refine (perm_insertIdx x _ ?_).trans (rest.cons x)
    rw [rest.length_eq]
    exact Nat.le_of_lt_succ (Nat.mod_lt n (Nat.succ_pos _))

theorem nodup_of_subperm {A B : Type} {f : A → B} {xs ys : List A} (part : xs.Subperm ys)
    (distinct : (ys.map f).Nodup) : (xs.map f).Nodup := by
  obtain ⟨zs, same, fewer⟩ := part
  exact (same.map f).nodup_iff.mp (distinct.sublist (fewer.map f))

section

variable {K : Type} {V : K → Type} {O : Type} {guard : K → Option (O × Bool)} {h : Held V O}

/-- A row whose writing needs no table lock. -/
theorem access_of_unguarded {k : K}
    (unguarded : guard k = none) (v : Option (V k)) :
    h.access guard k (some v) = { h with writes := ⟨k, v⟩ :: h.writes } := by
  unfold Held.access Held.enter
  rw [unguarded]

theorem enter_of_unguarded {k : K} (unguarded : guard k = none) : h.enter guard k = h := by
  unfold Held.enter
  rw [unguarded]

end

variable {K : Type} [DecidableEq K] {V : K → Type} {O : Type} [DecidableEq O]
variable {E X T : Type}

namespace Prog

/-- `SELECT … FOR UPDATE` of one row. -/
def selectForUpdate (k : K) (next : Option (V k) → Prog V O E X) : Prog V O E X :=
  .read fun view _ =>
    match view.lookup k with
    | none => next none
    | some _ => .access k (Option.map some) next

/-- The newest version of a row, changed if it still matches; `set` is the new
version of a row that matches. -/
def recheck (k : K) (set : V k → Option (V k)) (next : Option (V k) → Prog V O E X) :
    Prog V O E X :=
  .access k (fun row => (row.bind set).map some) (fun row => next (row.bind set))

/-- `UPDATE … WHERE … RETURNING` of one row. -/
def updateWhere (k : K) (set : V k → Option (V k)) (next : Option (V k) → Prog V O E X) :
    Prog V O E X :=
  .read fun view _ =>
    match (view.lookup k).bind set with
    | none => next none
    | some _ => recheck k set next

/-- `INSERT` under a unique key; `false` is a unique violation. -/
def insertRow (k : K) (row : V k) (next : Bool → Prog V O E X) : Prog V O E X :=
  .access k (fun old => if old.isNone then some (some row) else none) (fun old => next old.isNone)

/-- `INSERT … ON CONFLICT DO UPDATE … RETURNING`. -/
def upsertRow (k : K) (merge : Option (V k) → V k) (next : V k → Prog V O E X) : Prog V O E X :=
  .access k (fun old => some (some (merge old))) (fun old => next (merge old))

/-- `INSERT … ON CONFLICT DO UPDATE … WHERE … RETURNING`: the new version, or none
if the condition does not hold of the old one. -/
def upsertWhere (k : K) (merge : Option (V k) → Option (V k)) (next : Option (V k) → Prog V O E X) :
    Prog V O E X :=
  .access k (fun old => (merge old).map some) (fun old => next (merge old))

/-- `DELETE … WHERE … RETURNING`. -/
def deleteWhere (k : K) (cond : V k → Bool) (next : Option (V k) → Prog V O E X) : Prog V O E X :=
  .read fun view _ =>
    match (view.lookup k).filter cond with
    | none => next none
    | some _ =>
      .access k (fun row => (row.filter cond).map (fun _ => none)) (fun row => next (row.filter cond))

/-- The removal of a row that the statement has selected already. -/
def removeRow (k : K) (next : Option (V k) → Prog V O E X) : Prog V O E X :=
  .access k (Option.map (fun _ => none)) next

/-- `INSERT` under the next value of a sequence, which the database chooses; a
value already taken is an error. -/
def insertSerial (key : Nat → K) (row : (n : Nat) → V (key n)) (taken : X)
    (next : Nat → Prog V O E X) : Prog V O E X :=
  .choose fun n => insertRow (key n) (row n) fun
    | true => next n
    | false => .abort taken

def forEach {A B : Type} (body : A → B → (B → Prog V O E X) → Prog V O E X)
    (done : B → Prog V O E X) : List A → B → Prog V O E X
  | [], acc => done acc
  | x :: xs, acc => body x acc (forEach body done xs)

/-- The rows in an order that the database chooses. -/
def visit {A B : Type} (body : A → B → (B → Prog V O E X) → Prog V O E X)
    (done : B → Prog V O E X) (xs : List A) (acc : B) : Prog V O E X :=
  .choose fun n => forEach body done (reorder n xs) acc

/-- The rows of one `UPDATE`, selected by its snapshot: each is checked again on
its newest version, and `f` collects what the statement returns. -/
def updateEach {A B : Type} (κ : A → K) (set : (x : A) → V (κ x) → Option (V (κ x)))
    (f : (x : A) → V (κ x) → B → B) (next : B → Prog V O E X) (xs : List A) (acc : B) :
    Prog V O E X :=
  visit
    (fun x acc rest => recheck (κ x) (set x) fun
      | none => rest acc
      | some row => rest (f x row acc))
    next xs acc

/-- One `UPDATE` over rows named by their keys, with the number of rows changed. -/
def updateRows (ks : List K) (set : (k : K) → V k → Option (V k)) (next : Nat → Prog V O E X) :
    Prog V O E X :=
  .read fun view _ =>
    updateEach id set (fun _ _ n => n + 1) next
      (ks.filter (fun k => ((view.lookup k).bind (set k)).isSome)) 0

end Prog

namespace Contract

variable {sys : System V O E X T} {c : Contract sys} {t : T} {h : Held V O} {w : World V E}

open Prog

theorem safe_ite {P : Prop} [Decidable P] {p q : Prog V O E X} (yes : P → c.Safe t p h w)
    (no : ¬ P → c.Safe t q h w) : c.Safe t (if P then p else q) h w := by
  by_cases holds : P
  · rw [if_pos holds]
    exact yes holds
  · rw [if_neg holds]
    exact no holds

variable {k : K} {next : Option (V k) → Prog V O E X} {A B : Type}
  (P : List A → B → Held V O → World V E → Prop)

variable {set : V k → Option (V k)} {body : A → B → (B → Prog V O E X) → Prog V O E X}
  {done : B → Prog V O E X}

theorem safe_upsertWhere {merge : Option (V k) → Option (V k)}
    (skipped : ∀ w', c.Later t h w w' → merge ((overlay w'.db h.writes).lookup k) = none →
      c.Safe t (next none) (h.enter sys.guard k) w')
    (merged : ∀ w' row, c.Later t h w w' → merge ((overlay w'.db h.writes).lookup k) = some row →
      c.Safe t (next (some row)) (h.access sys.guard k (some (some row))) w') :
    c.Safe t (upsertWhere k merge next) h w := by
  intro w' later
  dsimp only
  cases result : merge ((overlay w'.db h.writes).lookup k) with
  | none => exact skipped w' later result
  | some row => exact merged w' row later result

theorem safe_recheck
    (skipped : ∀ w', c.Later t h w w' → ((overlay w'.db h.writes).lookup k).bind set = none →
      c.Safe t (next none) (h.enter sys.guard k) w')
    (updated : ∀ w' row row', c.Later t h w w' → (overlay w'.db h.writes).lookup k = some row →
      set row = some row' →
      c.Safe t (next (some row')) (h.access sys.guard k (some (some row'))) w') :
    c.Safe t (recheck k set next) h w := by
  refine safe_upsertWhere skipped fun w' row' later matched => ?_
  obtain ⟨row, newest, matching⟩ := bind_eq_some_iff.mp matched
  exact updated w' row row' later newest matching

section

variable (missed : ∀ w', c.Later t h w w' → c.Safe t (next none) h w')
variable (skipped : ∀ w', c.Later t h w w' → c.Safe t (next none) (h.enter sys.guard k) w')

include missed skipped

theorem safe_updateWhere
    (updated : ∀ w' row row', c.Later t h w w' → (overlay w'.db h.writes).lookup k = some row →
      set row = some row' →
      c.Safe t (next (some row')) (h.access sys.guard k (some (some row'))) w') :
    c.Safe t (updateWhere k set next) h w := by
  intro w' later
  dsimp only
  cases ((overlay w'.db h.writes).lookup k).bind set with
  | none => exact missed w' later
  | some seen =>
    apply safe_recheck
    · exact fun w'' further _ => skipped w'' (later.trans further)
    · exact fun w'' row row' further => updated w'' row row' (later.trans further)

theorem safe_selectForUpdate
    (found : ∀ w' row, c.Later t h w w' → (overlay w'.db h.writes).lookup k = some row →
      c.Safe t (next (some row)) (h.access sys.guard k (some (some row))) w') :
    c.Safe t (selectForUpdate k next) h w := by
  have equal : selectForUpdate k next = updateWhere k some next := by
    simp only [selectForUpdate, updateWhere, recheck, bind_fun_some]
  rw [equal]
  apply safe_updateWhere missed skipped
  rintro w' row _ later newest ⟨⟩
  exact found w' row later newest

theorem safe_deleteWhere {cond : V k → Bool}
    (deleted : ∀ w' row, c.Later t h w w' → (overlay w'.db h.writes).lookup k = some row →
      cond row = true → c.Safe t (next (some row)) (h.access sys.guard k (some none)) w') :
    c.Safe t (deleteWhere k cond next) h w := by
  intro w' later
  dsimp only
  cases ((overlay w'.db h.writes).lookup k).filter cond with
  | none => exact missed w' later
  | some seen =>
    intro w'' further
    dsimp only
    cases found : ((overlay w''.db h.writes).lookup k).filter cond with
    | none => exact skipped w'' (later.trans further)
    | some row =>
      obtain ⟨newest, matching⟩ := filter_eq_some_iff.mp found
      exact deleted w'' row (later.trans further) newest matching

end

theorem safe_insertRow {row : V k} {next : Bool → Prog V O E X}
    (duplicate : ∀ w', c.Later t h w w' → c.Safe t (next false) (h.enter sys.guard k) w')
    (inserted : ∀ w', c.Later t h w w' → (overlay w'.db h.writes).lookup k = none →
      c.Safe t (next true) (h.access sys.guard k (some (some row))) w') :
    c.Safe t (insertRow k row next) h w := by
  intro w' later
  cases newest : (overlay w'.db h.writes).lookup k with
  | none => exact inserted w' later newest
  | some old => exact duplicate w' later

theorem safe_upsertRow {merge : Option (V k) → V k} {next : V k → Prog V O E X}
    (merged : ∀ w', c.Later t h w w' →
      c.Safe t (next (merge ((overlay w'.db h.writes).lookup k)))
        (h.access sys.guard k (some (some (merge ((overlay w'.db h.writes).lookup k))))) w') :
    c.Safe t (upsertRow k merge next) h w := merged

theorem safe_removeRow
    (missing : ∀ w', c.Later t h w w' → (overlay w'.db h.writes).lookup k = none →
      c.Safe t (next none) (h.enter sys.guard k) w')
    (removed : ∀ w' row, c.Later t h w w' → (overlay w'.db h.writes).lookup k = some row →
      c.Safe t (next (some row)) (h.access sys.guard k (some none)) w') :
    c.Safe t (removeRow k next) h w := by
  intro w' later
  cases newest : (overlay w'.db h.writes).lookup k with
  | none => exact missing w' later newest
  | some row => exact removed w' row later newest

section

variable
  (round : ∀ x rest acc h w next, P (x :: rest) acc h w →
    (∀ acc' h' w', P rest acc' h' w' → c.Safe t (next acc') h' w') → c.Safe t (body x acc next) h w)
  (finish : ∀ acc h w, P [] acc h w → c.Safe t (done acc) h w) (xs : List A) (acc : B)

include round finish

/-- A loop is safe if an invariant over the rows still to come is kept by each
round and is enough for what follows the loop. -/
theorem safe_forEach (start : P xs acc h w) : c.Safe t (forEach body done xs acc) h w := by
  induction xs generalizing acc h w with
  | nil => exact finish acc h w start
  | cons x xs ih =>
    exact round x xs acc h w (forEach body done xs) start (fun acc' h' w' next => ih acc' next)

theorem safe_visit (start : ∀ ys, ys.Perm xs → P ys acc h w) :
    c.Safe t (visit body done xs acc) h w :=
  fun n => safe_forEach P round finish _ acc (start _ (reorder_perm n xs))

end

variable {κ : A → K} {set : (x : A) → V (κ x) → Option (V (κ x))} {f : (x : A) → V (κ x) → B → B}
variable {next : B → Prog V O E X} {xs : List A} {acc : B}

/-- `P` is kept by every row the statement visits. -/
theorem safe_updateEach
    (later : ∀ {rest acc h w w'}, P rest acc h w → c.Later t h w w' → P rest acc h w')
    (skipped : ∀ {x rest acc h w}, P (x :: rest) acc h w →
      ((overlay w.db h.writes).lookup (κ x)).bind (set x) = none →
      P rest acc (h.enter sys.guard (κ x)) w)
    (updated : ∀ {x rest acc h w row row'}, P (x :: rest) acc h w →
      (overlay w.db h.writes).lookup (κ x) = some row → set x row = some row' →
      P rest (f x row' acc) (h.access sys.guard (κ x) (some (some row'))) w)
    (finish : ∀ {acc h w}, P [] acc h w → c.Safe t (next acc) h w)
    (start : ∀ ys, ys.Perm xs → P ys acc h w) : c.Safe t (updateEach κ set f next xs acc) h w := by
  refine safe_visit P ?_ (fun acc h w => finish) xs acc start
  intro x rest acc h w after now followed
  apply safe_recheck
  · exact fun w' further unmatched => followed acc _ w' (skipped (later now further) unmatched)
  · exact fun w' row row' further newest matching =>
      followed (f x row' acc) _ w' (updated (later now further) newest matching)

/-- The same rule with the rows changed so far, each of them once, in place of those to come. -/
theorem safe_updateEach_done
    (later : ∀ {done acc h w w'}, P done acc h w → c.Later t h w w' → P done acc h w')
    (skipped : ∀ {x done acc h w}, P done acc h w → P done acc (h.enter sys.guard (κ x)) w)
    (updated : ∀ {x done acc h w row row'}, P done acc h w → (x :: done).Subperm xs →
      (overlay w.db h.writes).lookup (κ x) = some row → set x row = some row' →
      P (x :: done) (f x row' acc) (h.access sys.guard (κ x) (some (some row'))) w)
    (finish : ∀ {done acc h w}, P done acc h w → done.Subperm xs → c.Safe t (next acc) h w)
    (start : P [] acc h w) : c.Safe t (updateEach κ set f next xs acc) h w := by
  refine safe_updateEach
    (fun rest acc h w => ∃ done, (done ++ rest).Subperm xs ∧ P done acc h w) ?_ ?_ ?_ ?_ ?_
  · rintro rest acc h w w' ⟨done, part, now⟩ further
    exact ⟨done, part, later now further⟩
  · rintro x rest acc h w ⟨done, part, now⟩ -
    have fewer := (sublist_cons_self x rest).append_left done
    exact ⟨done, fewer.subperm.trans part, skipped now⟩
  · rintro x rest acc h w row row' ⟨done, part, now⟩ newest matching
    replace part := perm_middle.symm.subperm.trans part
    have fewer := (sublist_append_left done rest).cons_cons x
    exact ⟨x :: done, part, updated now (fewer.subperm.trans part) newest matching⟩
  · rintro acc h w ⟨done, part, now⟩
    exact finish now (append_nil done ▸ part)
  · exact fun ys order => ⟨[], order.subperm, start⟩

theorem safe_insertSerial {key : Nat → K} {row : (n : Nat) → V (key n)} {taken : X}
    {next : Nat → Prog V O E X} (clash : c.mayAbort t taken)
    (inserted : ∀ n w', c.Later t h w w' → (overlay w'.db h.writes).lookup (key n) = none →
      c.Safe t (next n) (h.access sys.guard (key n) (some (some (row n)))) w') :
    c.Safe t (insertSerial key row taken next) h w :=
  fun n => safe_insertRow (fun _ _ => clash) (inserted n)

end Contract

variable {A B : Type} {κ : A → K} {set : (x : A) → V (κ x) → Option (V (κ x))}
variable {f : (x : A) → V (κ x) → B → B} {next : B → Prog V O E X} {d : Table V}

def written (set : (x : A) → V (κ x) → Option (V (κ x))) (d : Table V) (x : A) :
    Option ((k : K) × Option (V k)) :=
  ((d.lookup (κ x)).bind (set x)).map (fun row => ⟨κ x, some row⟩)

def collected (set : (x : A) → V (κ x) → Option (V (κ x))) (f : (x : A) → V (κ x) → B → B)
    (d : Table V) (acc : B) (x : A) : B :=
  match (d.lookup (κ x)).bind (set x) with
  | none => acc
  | some row => f x row acc

omit [DecidableEq O]

variable {xs : List A}

theorem collected_of_some {acc : B} {x : A} {row : V (κ x)}
    (matching : (d.lookup (κ x)).bind (set x) = some row) :
    collected set f d acc x = f x row acc := by
  simp [collected, matching]

theorem mem_written {write : (k : K) × Option (V k)} :
    write ∈ xs.filterMap (written set d) ↔
      ∃ x ∈ xs, ∃ row, (d.lookup (κ x)).bind (set x) = some row ∧ write = ⟨κ x, some row⟩ := by
  simp only [mem_filterMap, written, map_eq_some_iff]
  simp only [eq_comm]

theorem mem_writtenKeys_written {k : K} :
    k ∈ writtenKeys (xs.filterMap (written set d)) ↔
      ∃ x ∈ xs, κ x = k ∧ ((d.lookup (κ x)).bind (set x)).isSome = true := by
  constructor
  · intro member
    obtain ⟨write, listed, rfl⟩ := mem_map.mp member
    obtain ⟨x, there, row, matching, rfl⟩ := mem_written.mp listed
    exact ⟨x, there, rfl, by simp [matching]⟩
  · rintro ⟨x, there, rfl, matching⟩
    obtain ⟨row, matching⟩ := isSome_iff_exists.mp matching
    exact mem_map.mpr ⟨_, mem_written.mpr ⟨x, there, row, matching, rfl⟩, rfl⟩

theorem notMem_written {k : K} (apart : ∀ x, κ x ≠ k) :
    k ∉ writtenKeys (xs.filterMap (written set d)) := by
  intro member
  obtain ⟨x, -, same, -⟩ := mem_writtenKeys_written.mp member
  exact apart x same

theorem nodup_written (distinct : (xs.map κ).Nodup) :
    (writtenKeys (xs.filterMap (written set d))).Nodup := by
  refine distinct.sublist ?_
  induction xs with
  | nil => exact .slnil
  | cons x xs ih =>
    have rest := ih (nodup_cons.mp distinct).2
    rw [filterMap_cons, map_cons]
    cases matching : written set d x with
    | none => exact rest.cons _
    | some write =>
      obtain ⟨row, -, rfl⟩ := map_eq_some_iff.mp matching
      exact rest.cons_cons _

/-- What a statement adds to a tally, row by row. -/
theorem sum_written {M : Type} [AddCommGroup M] (q : (k : K) → V k → M) (share : A → M)
    (each : ∀ x ∈ xs, ∃ row, (d.lookup (κ x)).bind (set x) = some row ∧
      q (κ x) row - weight q (κ x) (d.lookup (κ x)) = share x) :
    ((xs.filterMap (written set d)).map fun write =>
      weight q write.1 write.2 - weight q write.1 (d.lookup write.1)).sum = (xs.map share).sum := by
  induction xs with
  | nil => rfl
  | cons x xs ih =>
    obtain ⟨row, matching, amount⟩ := each x mem_cons_self
    have wrote : written set d x = some ⟨κ x, some row⟩ := by simp [written, matching]
    rw [filterMap_cons, wrote, map_cons, sum_cons, map_cons, sum_cons,
      ih (forall_mem_cons.mp each).2, ← amount]
    rfl

theorem sum_written_eq_zero {M : Type} [AddCommGroup M] (q : (k : K) → V k → M)
    (weightless : ∀ x ∈ xs, ∀ row, q (κ x) row = 0) :
    ((xs.filterMap (written set d)).map fun write =>
      weight q write.1 write.2 - weight q write.1 (d.lookup write.1)).sum = 0 := by
  apply sum_eq_zero
  intro share listed
  obtain ⟨write, member, rfl⟩ := mem_map.mp listed
  obtain ⟨x, there, row, -, rfl⟩ := mem_written.mp member
  have zero : ∀ version, weight q (κ x) version = 0 := by
    intro version
    cases version with
    | none => rfl
    | some row => exact weightless x there row
  rw [zero, zero, sub_zero]

/-- A statement on its own changes the rows that match in its snapshot. -/
theorem solo_updateEach {acc : B} {choices : Nat → Nat} {now : Nat} {ws : Writes V}
    (distinct : (xs.map κ).Nodup) (fresh : ∀ x ∈ xs, κ x ∉ writtenKeys ws) :
    (Prog.updateEach κ set f next xs acc).solo choices now d ws =
      (next ((reorder (choices 0) xs).foldl (collected set f d) acc)).solo
        (fun n => choices (n + 1)) now d
        (((reorder (choices 0) xs).filterMap (written set d)).reverse ++ ws) := by
  have order := reorder_perm (choices 0) xs
  have distinct' : ((reorder (choices 0) xs).map κ).Nodup := (order.map κ).nodup_iff.mpr distinct
  have fresh' : ∀ x ∈ reorder (choices 0) xs, κ x ∉ writtenKeys ws :=
    fun x member => fresh x (order.subset member)
  unfold Prog.updateEach Prog.visit
  rw [Prog.solo]
  generalize reorder (choices 0) xs = ys at distinct' fresh'
  clear distinct fresh order
  induction ys generalizing acc ws with
  | nil => rfl
  | cons x ys ih =>
    obtain ⟨apart, distinct⟩ := nodup_cons.mp distinct'
    have unwritten := lookup_overlay_of_notMem d (fresh' x mem_cons_self)
    have later := fun y member => fresh' y (mem_cons_of_mem x member)
    unfold Prog.forEach Prog.recheck
    rw [Prog.solo, unwritten, foldl_cons, filterMap_cons]
    cases matching : (d.lookup (κ x)).bind (set x) with
    | none =>
      have quiet : written set d x = none := by simp [written, matching]
      have same : collected set f d acc x = acc := by simp [collected, matching]
      rw [quiet, same]
      exact ih distinct later
    | some row =>
      have wrote : written set d x = some ⟨κ x, some row⟩ := by simp [written, matching]
      rw [wrote, collected_of_some matching, reverse_cons, append_assoc]
      refine ih distinct (fun y member => ?_)
      intro there
      rcases mem_writtenKeys_cons.mp there with same | old
      · exact apart (same ▸ mem_map_of_mem member)
      · exact later y member old

end ReadCommitted
