import C3Api.Supplier.Aggregate
import C3Api.Supplier.SettlementSafe
import Mathlib.Data.List.Perm.Subperm
import Mathlib.Tactic.Ring

/-!
# Crediting and thawing keep the ledger

A credit batch is read long before its rows are marked. What was read of a row
stays true as long as the row exists, and the mark counts only rows that were not
credited yet, so a transaction that marks its whole batch credits each row for the
first time.
-/

namespace C3Api.Supplier

open ReadCommitted List Contract

variable {cfg : SupplierRepoConfig} {base : Rows} {t : Task} {w w' : SupplierWorld}
variable {h : Held Row Nat} {ws : Writes Row} {batch : List BatchRow} {moved : Account → Int}

/-- What a batch row says of the usage row it was read from. -/
structure Reads (r : UsageRow) (b : BatchRow) : Prop where
  supplier : r.supplierUserID = some b.uid
  cost : r.cost = b.cost
  earn : r.supplierEarnMillis = b.earn
  createdAt : r.createdAt = b.createdAt

/-- A batch row that was once read: its id is taken for its day, and the row under
it, while there is one, is the row that was read. -/
structure Known (w : SupplierWorld) (b : BatchRow) : Prop where
  serial : w.db.lookup (.usageID b.id) = some (sourceDay b.createdAt)
  row : ∀ r, w.db.lookup (.usage (sourceDay b.createdAt) b.id) = some r → Reads r b
  positive : 0 < b.earn

variable {b : BatchRow} {k : Key} {v : Option (Row k)} {A B : Type} {xs : List A} {next : Tx}
  {now : Nat} {limit : Int}

theorem Known.grows (known : Known w b) (grows : Grows w.db w'.db) : Known w' b := by
  refine ⟨grows.serial known.serial, fun r' found => ?_, known.positive⟩
  obtain ⟨r, before, marks⟩ := grows.usage _ _ r' found (by rw [known.serial]; rfl)
  have reads := known.row r before
  rw [marks.same]
  exact ⟨reads.supplier, reads.cost, reads.earn, reads.createdAt⟩

/-- A transaction on the credit tables that works on `batch` and has moved the
accounts by `moved`. -/
structure Crediting (batch : List BatchRow) (moved : Account → Int) (w : SupplierWorld)
    (ws : Writes Row) : Prop where
  pending : books.Pending (RowStep creditScope) moved w.db ws
  known : ∀ b ∈ batch, Known w b

theorem Crediting.start (known : ∀ b ∈ batch, Known w b) : Crediting batch (fun _ => 0) w [] :=
  ⟨.nil RowStep.refl, known⟩

theorem Crediting.later (crediting : Crediting batch moved w h.writes)
    (later : (contract cfg base).Later t h w w') : Crediting batch moved w' h.writes :=
  ⟨crediting.pending.later RowStep.refl later,
    fun b member => (crediting.known b member).grows later.rely⟩

section

variable (crediting : Crediting batch moved w ws)

include crediting

theorem Crediting.of_moved {moved' : Account → Int} (same : ∀ a, moved a = moved' a) :
    Crediting batch moved' w ws :=
  ⟨crediting.pending.of_moved same, crediting.known⟩

theorem Crediting.write {v' : Option (Row k)} {contrib : Account → Int}
    (found : (overlay w.db ws).lookup k = v) (step : RowStep creditScope k v v')
    (amounts : ∀ a, weight (share a) k v' - weight (share a) k v = contrib a) :
    Crediting batch (fun a => moved a + contrib a) w (⟨k, v'⟩ :: ws) := by
  refine ⟨(crediting.pending.cons RowStep.trans (found ▸ step)).of_moved (fun a => ?_),
    crediting.known⟩
  rw [← amounts a, found]
  rfl

theorem Crediting.lock (found : (overlay w.db ws).lookup k = v) :
    Crediting batch moved w (⟨k, v⟩ :: ws) := by
  refine (crediting.write found (.refl k v) (fun a => sub_self _)).of_moved (fun a => ?_)
  exact add_zero _

end

/-- What has moved is what the event posts. -/
theorem Crediting.commit {e : Event} (crediting : Crediting batch moved w h.writes)
    (posts : ∀ a, moved a = posting a e) (recorded : ∀ rows, e.Recorded rows) :
    Safe cfg base t (.commit [e]) h w := by
  intro w' later others _
  have posted := (crediting.later later).of_moved posts
  exact (Commits.ofCredit later.inv posted.pending (recorded _)).kept later.inv others rfl

/-- A loop over rows, each of which moves the accounts by its own contribution. -/
theorem crediting_forEach {body : A → B → (B → Tx) → Tx} {done : B → Tx} (good : A → Prop)
    (contrib : A → Account → Int)
    (round : ∀ x acc h w next moved, good x → Crediting batch moved w h.writes →
      (∀ acc' h' w', Crediting batch (fun a => moved a + contrib x a) w' h'.writes →
        Safe cfg base t (next acc') h' w') → Safe cfg base t (body x acc next) h w)
    (all : ∀ x ∈ xs, good x) {acc : B} (start : Crediting batch moved w h.writes)
    (finish : ∀ acc' h' w',
      Crediting batch (fun a => moved a + (xs.map (contrib · a)).sum) w' h'.writes →
      Safe cfg base t (done acc') h' w') : Safe cfg base t (.forEach body done xs acc) h w := by
  induction xs generalizing acc h w moved with
  | nil => exact finish acc h w (start.of_moved (fun a => by simp))
  | cons x xs ih =>
    refine round x acc h w _ moved (all x mem_cons_self) start (fun acc' h' w' next => ?_)
    apply ih (fun y member => all y (mem_cons_of_mem x member)) next
    intro acc'' h'' w'' last
    exact finish acc'' h'' w'' (last.of_moved (fun a => by simp [add_assoc]))

theorem lockBalances_safe {uids : List Int} (start : Crediting batch moved w h.writes)
    (followed : ∀ h' w', Crediting batch moved w' h'.writes → Safe cfg base t next h' w') :
    Safe cfg base t (lockBalances uids next) h w := by
  refine crediting_forEach (fun _ => True) (fun _ _ => 0) ?_ (fun _ _ => trivial) start ?_
  · intro uid _ h w rest moved _ crediting more
    have same : ∀ {w' ws}, Crediting batch moved w' ws →
        Crediting batch (fun a => moved a + 0) w' ws := fun now => now.of_moved (fun _ => by simp)
    apply safe_selectForUpdate
    · exact fun w' later => more () h w' (same (crediting.later later))
    · intro w' later
      exact more () h w' (same (crediting.later later))
    · intro w' b later found
      exact more () _ w' (same ((crediting.later later).lock found))
  · exact fun _ h' w' last => followed h' w' (last.of_moved (fun a => by simp))

def chunkMoved (x : UIDCredit × Int) : Account → Int
  | .frozen uid => if x.1.uid = uid then x.1.toFrozen else 0
  | _ => 0

variable {chunks : List (UIDCredit × Int)} {totals : List UIDCredit} {recon : List DayRecon}
  {freezeByUID : Int → Int}

theorem creditChunks_safe {g : Int} (start : Crediting batch moved w h.writes)
    (followed : ∀ h' w',
      Crediting batch (fun a => moved a + (chunks.map (chunkMoved · a)).sum) w' h'.writes →
      Safe cfg base t next h' w') : Safe cfg base t (creditChunks g chunks next) h w := by
  refine crediting_forEach (fun _ => True) chunkMoved ?_ (fun _ _ => trivial) start
    (fun _ h' w' last => followed h' w' last)
  intro x _ h w rest moved _ crediting more w₁ later₁
  apply safe_upsertRow
  intro w₂ later₂
  refine more () _ w₂ ((crediting.later (later₁.trans later₂)).write rfl ⟨trivial, trivial, nofun⟩ ?_)
  intro a
  cases (overlay w₂.db h.writes).lookup (.chunk x.1.uid (bucketAvailableAt w₁.clock g x.2)) <;>
    cases a <;> simp only [addToChunk, chunkMoved, weight_some, weight_none, share, sub_self, sub_zero]
  split <;> omega

def balanceMoved (t : UIDCredit) : Account → Int
  | .available uid => if t.uid = uid then t.toAvailable else 0
  | .lifetimeCredited uid => if t.uid = uid then t.earn else 0
  | _ => 0

theorem creditBalance_solvent {c : UIDCredit} (nonneg : 0 ≤ c.toAvailable)
    (v : Option SupplierBalance) : RowBefore (.balance c.uid) v (some (creditBalance c now v)) := by
  refine ⟨fun _ => rfl, fun solvent b' same => ?_⟩
  cases same
  cases v with
  | none => exact nonneg
  | some b => exact add_nonneg (solvent b rfl) nonneg

theorem creditBalances_safe {next : List Int → Tx} (nonneg : ∀ t ∈ totals, 0 ≤ t.toAvailable)
    (start : Crediting batch moved w h.writes)
    (followed : ∀ returned h' w',
      Crediting batch (fun a => moved a + (totals.map (balanceMoved · a)).sum) w' h'.writes →
      Safe cfg base t (next returned) h' w') :
    Safe cfg base t (creditBalances now totals next) h w := by
  refine crediting_forEach (fun c => 0 ≤ c.toAvailable) balanceMoved ?_ nonneg start followed
  intro c returned h w rest moved positive crediting more
  apply safe_upsertRow
  intro w₁ later
  refine more _ _ w₁ ((crediting.later later).write rfl
    ⟨creditBalance_solvent positive _, trivial, nofun⟩ ?_)
  intro a
  cases (overlay w₁.db h.writes).lookup (.balance c.uid) <;>
    cases a <;> simp only [creditBalance, balanceMoved, weight_some, weight_none, share, sub_self,
      sub_zero, ite_self]
  all_goals split <;> omega

def reconMoved (d : DayRecon) : Account → Int
  | .reconciled m uid day => if d.uid = uid ∧ d.sourceDay = day then d.measure m else 0
  | _ => 0

theorem accumulate_step {d : DayRecon} {v : Option SupplierReconciliation}
    {r' : SupplierReconciliation} (added : accumulate d v = some r') :
    RowStep creditScope (.reconciliation d.uid d.sourceDay) v (some r') ∧
      ∀ a, weight (share a) (.reconciliation d.uid d.sourceDay) (some r') -
        weight (share a) (.reconciliation d.uid d.sourceDay) v = reconMoved d a := by
  cases v with
  | none =>
    cases added
    refine ⟨⟨nofun, trivial, nofun⟩, fun a => ?_⟩
    cases a <;> simp only [weight_some, weight_none, share, reconMoved, sub_self, sub_zero]
    case reconciled m uid day => cases m <;> rfl
  | some r =>
    unfold accumulate at added
    by_cases opened : r.state = .opened
    · simp only [opened, if_true] at added
      cases added
      refine ⟨⟨fun r₀ same => ⟨_, rfl, fun closed => ?_⟩, trivial, nofun⟩, fun a => ?_⟩
      · cases same
        rw [opened] at closed
        cases closed
      · cases a <;> simp only [weight_some, share, reconMoved, sub_self]
        case reconciled m uid day =>
          split
          · cases m <;> simp [SupplierReconciliation.measure, DayRecon.measure]
          · simp
    · simp only [opened, if_false] at added
      cases added

/-- If the statement changed as many rows as it was given, it changed all of them. -/
theorem accumulateRecon_safe {next : List DayRecon → Tx} (start : Crediting batch moved w h.writes)
    (followed : ∀ affected h' w',
      (affected.length = recon.length →
        Crediting batch (fun a => moved a + (recon.map (reconMoved · a)).sum) w' h'.writes) →
      Safe cfg base t (next affected) h' w') :
    Safe cfg base t (accumulateRecon recon next) h w := by
  -- the rows done and those to come are the whole list unless one was skipped
  let P : List DayRecon → List DayRecon → Held Row Nat → SupplierWorld → Prop :=
    fun rest affected h w =>
      Crediting batch (fun a => moved a + (affected.map (reconMoved · a)).sum) w h.writes ∧
      affected.length + rest.length ≤ recon.length ∧
      (affected.length + rest.length = recon.length → affected.reverse ++ rest = recon)
  refine safe_forEach P ?_ ?_ recon [] ⟨start.of_moved (fun a => by simp), by simp, by simp⟩
  · intro d rest affected h w followed ⟨crediting, bounded, whole⟩ more
    rw [length_cons] at bounded
    apply safe_upsertWhere
    · intro w' later _
      exact more affected h w' ⟨crediting.later later, by omega, fun full => by omega⟩
    intro w' r' later added
    obtain ⟨step, amounts⟩ := accumulate_step added
    refine more (d :: affected) _ w'
      ⟨((crediting.later later).write rfl step amounts).of_moved (fun a => ?_), ?_, fun full => ?_⟩
    · rw [map_cons, sum_cons]
      ring
    · rw [length_cons]
      omega
    · rw [length_cons] at full
      rw [reverse_cons, append_assoc]
      exact whole (by rw [length_cons]; omega)
  · intro affected h w ⟨crediting, _, whole⟩
    refine followed affected h w (fun full => crediting.of_moved (fun a => ?_))
    have all := whole (by simpa using full)
    rw [append_nil] at all
    rw [← all, map_reverse, sum_reverse]

theorem mem_usageEntries {view : Rows} {e : UsageEntry} :
    e ∈ usageEntries view ↔ view.lookup (.usage e.day e.id) = some e.row := by
  constructor
  · intro member
    obtain ⟨⟨k, row⟩, listed, taken⟩ := mem_filterMap.mp member
    cases k <;> cases taken
    exact AList.mem_lookup_iff.mpr listed
  · intro found
    exact mem_filterMap.mpr ⟨⟨.usage e.day e.id, e.row⟩, AList.mem_lookup_iff.mp found, rfl⟩

theorem usageEntries_nodup (view : Rows) : (usageEntries view).Nodup := by
  refine List.Nodup.filterMap ?_ view.nodupKeys.nodup
  rintro ⟨k, row⟩ ⟨k', row'⟩ e first second
  cases k <;> cases first
  cases k' <;> cases second
  rfl

theorem usageEntries_ids_nodup (sound : Sound base w) (moves : Moves (RowStep creditScope) w.db ws) :
    ((usageEntries (overlay w.db ws)).map UsageEntry.id).Nodup := by
  refine List.Nodup.map_on ?_ (usageEntries_nodup _)
  have serial : ∀ e ∈ usageEntries (overlay w.db ws), w.db.lookup (.usageID e.id) = some e.day := by
    intro e member
    obtain ⟨r, found, -⟩ := (moves (.usage e.day e.id)).usage e.row (mem_usageEntries.mp member)
    exact (sound.rows (.usage e.day e.id) r found).2.1
  rintro ⟨day, id, row⟩ first ⟨day', id', row'⟩ second same
  have found := mem_usageEntries.mp first
  have found' := mem_usageEntries.mp second
  have taken := serial _ first
  have taken' := serial _ second
  subst same
  rw [taken] at taken'
  cases taken'
  rw [found] at found'
  cases found'
  rfl

def markMoved (rows : List BatchRow) : Account → Int
  | .source m uid day => batchSum rows m uid day
  | .credits id => (rows.map fun b => if b.id = id then 1 else 0).sum
  | _ => 0

theorem markMoved_cons (b : BatchRow) (rows : List BatchRow) (a : Account) :
    markMoved (b :: rows) a = markMoved [b] a + markMoved rows a := by
  cases a <;> simp [markMoved, batchSum]

theorem markMoved_perm {rows rows' : List BatchRow} (order : rows.Perm rows') (a : Account) :
    markMoved rows a = markMoved rows' a := by
  cases a <;> simp only [markMoved, batchSum, (order.map _).sum_eq]

theorem markCredited_step {d : Nat} {r r' : UsageRow} (reads : Reads r b) (positive : 0 < b.earn)
    (marked : markCredited r = some r') :
    RowStep creditScope (.usage d b.id) (some r) (some r') ∧
      ∀ a, weight (share a) (.usage d b.id) (some r') -
        weight (share a) (.usage d b.id) (some r) = markMoved [b] a := by
  unfold markCredited at marked
  split at marked
  · cases marked
  rename_i uncredited
  cases marked
  refine ⟨⟨trivial, fun r₀ same => ⟨r, rfl, ?_⟩, nofun⟩, fun a => ?_⟩
  · cases same
    exact ⟨rfl, fun _ => .inr (by rw [reads.supplier]; rfl)⟩
  have key : sourceKey r = some (b.uid, sourceDay b.createdAt) := by
    rw [sourceKey, if_pos (reads.earn ▸ positive), reads.supplier, reads.createdAt]
    rfl
  have key' : sourceKey { r with supplierCredited := true } =
      some (b.uid, sourceDay b.createdAt) := key
  have measure : ∀ m, r.measure m = b.measure m := by
    intro m
    cases m
    · exact reads.cost
    · exact reads.earn
    · rfl
  cases a <;> simp only [weight_some, share, markMoved, sub_self]
  case source m uid day =>
    simp only [uncredited, key', Option.some.injEq, Prod.mk.injEq, batchSum, map_cons,
      map_nil, sum_singleton, false_and, if_false, sub_zero, true_and,
      Bool.false_eq_true]
    have same : UsageRow.measure { r with supplierCredited := true } m = b.measure m :=
      measure m
    rw [same]
  case credits id =>
    have earns : 0 < r.supplierEarnMillis := reads.earn ▸ positive
    simp [uncredited, earns]

/-- If as many rows were marked as the batch has, the whole batch was marked. -/
theorem markCredited_safe {next : List Nat → Tx} (start : Crediting batch moved w h.writes)
    (followed : ∀ marked h' w',
      (marked.length = batch.length →
        Crediting batch (fun a => moved a + markMoved batch a) w' h'.writes) →
      Safe cfg base t (next marked) h' w') :
    Safe cfg base t (updateUsage (batch.map BatchRow.id) markCredited next) h w := by
  intro w₁ later₁
  have start₁ := start.later later₁
  -- the rows marked so far are batch rows
  let P : List UsageEntry → List Nat → Held Row Nat → SupplierWorld → Prop :=
    fun entries marked h w => (contract cfg base).inv w ∧ marked = entries.map UsageEntry.id ∧
      ∃ done ⊆ batch, done.map BatchRow.id = marked ∧
        Crediting batch (fun a => moved a + markMoved done a) w h.writes
  refine safe_updateEach_done P ?_ ?_ ?_ ?_ ?_
  · rintro entries marked h w w' ⟨-, rows, done, inside, ids, crediting⟩ later
    exact ⟨later.inv, rows, done, inside, ids, crediting.later later⟩
  · rintro e entries marked h w ⟨inv, rows, done, inside, ids, crediting⟩
    exact ⟨inv, rows, done, inside, ids, by rwa [enter_writes]⟩
  · rintro e entries marked h w r r' ⟨inv, rows, done, inside, ids, crediting⟩ part found mark
    have listed := (mem_filter.mp (part.subset mem_cons_self)).2
    simp only [Bool.and_eq_true, decide_eq_true_eq] at listed
    obtain ⟨b, member, same⟩ := mem_map.mp listed.1
    have known := crediting.known b member
    obtain ⟨r₀, before, marks⟩ := (crediting.pending.moves (.usage e.day e.id)).usage r found
    obtain ⟨-, serial, -⟩ := inv.rows (.usage e.day e.id) r₀ before
    rw [← same, known.serial] at serial
    have day : sourceDay b.createdAt = e.day := Option.some.inj serial
    have reads₀ : Reads r₀ b := known.row r₀ (by rw [day, same]; exact before)
    have reads : Reads r b := by
      rw [marks.same]
      exact ⟨reads₀.supplier, reads₀.cost, reads₀.earn, reads₀.createdAt⟩
    rw [← same] at found ⊢
    obtain ⟨step, amounts⟩ := markCredited_step (d := e.day) reads known.positive mark
    refine ⟨inv, by rw [rows, map_cons, same], b :: done, ?_, by rw [← ids, map_cons], ?_⟩
    · exact cons_subset.mpr ⟨member, inside⟩
    refine (crediting.write found step amounts).of_moved (fun a => ?_)
    rw [markMoved_cons b done]
    ring
  · rintro entries marked h w ⟨-, rows, done, inside, ids, crediting⟩ part
    refine followed marked h w (fun full => crediting.of_moved (fun a => ?_))
    have fresh : (done.map BatchRow.id).Nodup := by
      rw [ids, rows]
      exact nodup_of_subperm (part.trans filter_sublist.subperm)
        (usageEntries_ids_nodup later₁.inv start₁.pending.moves)
    have each : done.Nodup := fresh.of_map _
    have all : done.Perm batch :=
      (List.Nodup.subperm each inside).perm_of_length_le (by rw [← full, ← ids, length_map])
    rw [markMoved_perm all]
  · refine ⟨later₁.inv, rfl, [], nil_subset _, rfl, start₁.of_moved (fun a => ?_)⟩
    cases a <;> simp [markMoved, batchSum]

theorem mapM_ok {f : A → Except SupplierError B} {ys : List B} (ok : xs.mapM f = .ok ys) :
    List.Forall₂ (fun x y => f x = .ok y) xs ys := by
  induction xs generalizing ys with
  | nil =>
    cases Except.ok.inj ok
    exact .nil
  | cons x xs ih =>
    rw [mapM_cons] at ok
    obtain ⟨y, first, ok⟩ := bind_ok ok
    obtain ⟨rest, others, ok⟩ := bind_ok ok
    cases Except.ok.inj ok
    exact .cons first (ih others)

theorem exists_of_mapM {f : A → Except SupplierError B} {ys : List B} {y : B}
    (ok : xs.mapM f = .ok ys) (member : y ∈ ys) : ∃ x ∈ xs, f x = .ok y := by
  have mapped : xs.map f = ys.map .ok :=
    forall₂_eq_eq_eq ▸ forall₂_map_left_iff.mpr (forall₂_map_right_iff.mpr (mapM_ok ok))
  exact mem_map.mp (mapped ▸ mem_map_of_mem member)

/-- What the others of a list come to is nothing. -/
theorem sum_map_filter {p : A → Bool} {f : A → Int} (others : ∀ x ∈ xs, p x = false → f x = 0) :
    ((xs.filter p).map f).sum = (xs.map f).sum := by
  have each : ∀ x ∈ xs, f x = if p x then f x else 0 := fun x listed => by
    split
    · rfl
    next other => exact others x listed (by simpa using other)
  rw [map_congr_left each, sum_map_ite]
  simp

theorem chunkRows_moved (nonneg : ∀ t ∈ totals, 0 ≤ t.toFrozen)
    (ok : chunkRows totals freezeByUID = .ok chunks) (uid : Int) :
    (chunks.map (chunkMoved · (.frozen uid))).sum = totalOf UIDCredit.toFrozen totals uid := by
  have kept : totals.filter (fun t => 0 < t.toFrozen) = chunks.map Prod.fst := by
    refine forall₂_eq_eq_eq ▸ forall₂_map_right_iff.mpr ((mapM_ok ok).imp fun t c first => ?_)
    dsimp only at first
    split at first
    · cases first
    · cases Except.ok.inj first
      rfl
  have sums : (chunks.map (chunkMoved · (.frozen uid))).sum =
      ((chunks.map Prod.fst).map fun t => if t.uid = uid then t.toFrozen else 0).sum := by
    rw [map_map]
    rfl
  rw [sums, ← kept, totalOf]
  refine sum_map_filter fun t member free => ?_
  have zero : t.toFrozen = 0 := le_antisymm (by simpa using free) (nonneg t member)
  rw [zero, ite_self]

/-- The four stages together move the accounts as the credit posts. -/
theorem credited_posting (aggregate : BatchAggregate batch totals recon)
    (ok : chunkRows totals freezeByUID = .ok chunks) (a : Account) :
    (chunks.map (chunkMoved · a)).sum + (totals.map (balanceMoved · a)).sum +
      (recon.map (reconMoved · a)).sum + markMoved batch a = posting a (.credited batch totals) := by
  cases a <;> simp only [chunkMoved, balanceMoved, reconMoved, markMoved, posting, map_const',
    sum_replicate, nsmul_zero, zero_add, add_zero]
  case available uid => rfl
  case lifetimeCredited uid => exact aggregate.earned uid
  case frozen uid => exact chunkRows_moved (fun t member => (aggregate.nonneg t member).2) ok uid
  case reconciled m uid day => exact aggregate.reconciled m uid day

theorem applyCredit_safe {failed : Tx} (aggregate : BatchAggregate batch totals recon)
    (known : ∀ b ∈ batch, Known w b)
    (onFailure : ∀ h' w', (∀ b ∈ batch, Known w' b) → Safe cfg base t failed h' w') :
    Safe cfg base t (applyCredit cfg batch freezeByUID totals recon failed) {} w := by
  intro w₁ later₁
  refine orAbort_safe (fun chunks ok => ?_)
  have started : Crediting batch (fun _ => 0) w₁ ({} : Held Row Nat).writes :=
    (Crediting.start known).later later₁
  apply exec_safe (onFailure _ w₁ started.known)
  refine creditChunks_safe started (fun h₂ w₂ frozen => ?_)
  apply exec_safe (onFailure h₂ w₂ frozen.known)
  refine lockBalances_safe frozen (fun h₃ w₃ locked => ?_)
  apply exec_safe (onFailure h₃ w₃ locked.known)
  refine creditBalances_safe (fun c member => (aggregate.nonneg c member).1) locked
    (fun returned h₄ w₄ credited => ?_)
  split
  · trivial
  apply exec_safe (onFailure h₄ w₄ credited.known)
  refine accumulateRecon_safe credited (fun affected h₅ w₅ reconciled => ?_)
  refine safe_ite (fun _ => trivial) (fun complete => ?_)
  have reconciled := reconciled (not_not.mp complete)
  apply exec_safe (onFailure h₅ w₅ reconciled.known)
  refine markCredited_safe reconciled (fun marks h₆ w₆ marked => ?_)
  refine safe_ite (fun _ => trivial) (fun whole => ?_)
  refine (marked (not_not.mp whole)).commit (fun a => ?_) fun _ => aggregate.earned
  rw [zero_add]
  exact credited_posting aggregate ok a

theorem commit_nothing (unwritten : h.writes = []) : Safe cfg base t (.commit []) h w := by
  intro w' later others _
  have same : w'.commit [] [] = w' := by simp [World.commit]
  rw [unwritten, same]
  exact ⟨later.inv, fun _ _ => .refl _, fun k _ => .refl k w'⟩

theorem applyWithRetry_safe (known : ∀ b ∈ batch, Known w b) (n : Nat) :
    Safe cfg base t (applyWithRetry cfg batch freezeByUID n) {} w := by
  induction n generalizing w with
  | zero => trivial
  | succ n ih =>
    refine safe_ite (fun _ => commit_nothing rfl) (fun _ => ?_)
    refine orAbort_safe (fun aggregated ok => ?_)
    refine applyCredit_safe (aggregateBatch_ok ok) known (fun h' w' known' w'' later => ?_)
    exact ih (fun b member => (known' b member).grows later.rely)

theorem fetchCreditBatch_known (sound : Sound base w)
    (ok : fetchCreditBatch w.db limit = .ok batch) : ∀ b ∈ batch, Known w b := by
  intro b member
  obtain ⟨e, taken, scanned⟩ := exists_of_mapM ok member
  have sorted := mem_of_mem_take taken
  rw [mem_insertionSort] at sorted
  obtain ⟨listed, uncredited⟩ := mem_filter.mp sorted
  have found := mem_usageEntries.mp listed
  obtain ⟨born, serial, -⟩ := sound.rows (.usage e.day e.id) e.row found
  unfold scanBatchRow at scanned
  split at scanned
  · cases scanned
  rename_i uid supplier
  cases Except.ok.inj scanned
  refine ⟨born.symm ▸ serial, fun r there => ?_, ?_⟩
  · rw [born, found] at there
    cases there
    exact ⟨supplier, rfl, rfl, rfl⟩
  · simp only [UsageRow.uncredited, Bool.and_eq_true, decide_eq_true_eq] at uncredited
    exact uncredited.2

theorem consumeBatch_safe : Safe cfg base t (consumeBatch cfg limit) {} w := by
  intro w₁ later₁
  refine orAbort_safe (fun batch ok => ?_)
  refine safe_ite (fun _ => commit_nothing rfl) (fun _ => ?_)
  intro w₂ later₂
  have known := fetchCreditBatch_known later₁.inv ok
  exact applyWithRetry_safe (fun b member => (known b member).grows later₂.rely) maxAttempts

theorem markBilledBulk_safe {ids : List Nat} : Safe cfg base t (markBilledBulk ids) {} w := by
  refine safe_ite (fun _ => commit_nothing rfl) (fun _ => ?_)
  intro w₁ later₁
  let P : List UsageEntry → List Nat → Held Row Nat → SupplierWorld → Prop :=
    fun _ _ h w => Crediting [] (fun _ => 0) w h.writes
  refine safe_updateEach_done P (fun now later => now.later later) ?_ ?_ ?_ ?_
  · intro e done marked h w now
    show Crediting [] _ w _
    rwa [enter_writes]
  · intro e done marked h w r r' now _ found mark
    unfold markBilled at mark
    split at mark
    · cases mark
    cases mark
    refine (now.write found ⟨trivial, fun r₀ same => ⟨r, rfl, ?_⟩, nofun⟩ (fun a => ?_)).of_moved
      (fun a => add_zero 0)
    · cases same
      exact ⟨rfl, .inl⟩
    · cases a <;> exact sub_self _
  · exact fun now _ => Crediting.commit now (fun a => by cases a <;> rfl) fun _ => trivial
  · exact .start nofun

end C3Api.Supplier
