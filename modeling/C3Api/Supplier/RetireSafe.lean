import C3Api.Supplier.ThawSafe

/-!
# Inserting and retiring usage rows keep the ledger

An insertion holds its partition shared, so the partition stands until it commits.
A retirement holds it exclusive: from the lock on no other transaction writes a row
of the day, and what was counted stays true until the partition is dropped.
-/

namespace C3Api.Supplier

open ReadCommitted List Contract RowStep
open C3Api.Proxy (UsageLog SupplierFinance stampSupplier stampSupplier_credited)

variable {cfg : SupplierRepoConfig} {base : Rows} {t : Task} {w w' : SupplierWorld}
variable {h : Held Row Nat} {day : Nat}

theorem partition_frozen {mode : Bool} (held : (day, mode) ∈ h.objects) :
    h.freezes tableLock (.partition day) = true := by
  have blocks : h.blocks day true = true :=
    any_eq_true.mpr ⟨(day, mode), held, by simp⟩
  simp [Held.freezes, tableLock, blocks]

theorem usage_frozen (held : (day, true) ∈ h.objects) (id : Nat) :
    h.freezes tableLock (.usage day id) = true := by
  have blocks : h.blocks day false = true :=
    any_eq_true.mpr ⟨(day, true), held, by simp⟩
  simp [Held.freezes, tableLock, blocks]

/-- An insertion adds usage rows and their ids and nothing else. -/
def Extends : (k : Key) → Option (Row k) → Option (Row k) → Prop
  | .usage _ _, v, v' => ∀ r, v = some r → v' = some r
  | .usageID _, v, v' => ∀ day, v = some day → v' = some day
  | _, v, v' => v' = v

theorem Extends.refl (k : Key) (v : Option (Row k)) : Extends k v v := by
  cases k with
  | usage day id | usageID id => exact fun _ found => found
  | _ => rfl

theorem Extends.trans (k : Key) (u v x : Option (Row k)) (first : Extends k u v)
    (second : Extends k v x) : Extends k u x := by
  cases k with
  | usage day id => exact fun r found => second r (first r found)
  | usageID id => exact fun day found => second day (first day found)
  | _ => exact Eq.trans second first

theorem Extends.before {k : Key} {v v' : Option (Row k)} (grown : Extends k v v') :
    RowBefore k v v' := by
  cases k with
  | usage day id => trivial
  | usageID id => exact grown
  | _ =>
    obtain rfl : v' = v := grown
    exact .refl _ _

/-- A usage row that the running transaction has inserted. -/
structure NewRow (w : SupplierWorld) (h : Held Row Nat) (day id : Nat) (r : UsageRow) : Prop where
  unused : w.db.lookup (.usageID id) = none
  serial : (overlay w.db h.writes).lookup (.usageID id) = some day
  taken : .usageID id ∈ writtenKeys h.writes
  born : sourceDay r.createdAt = day
  standing : (w.db.lookup (.partition day)).isSome = true
  shared : ∃ mode, (day, mode) ∈ h.objects
  uncredited : r.supplierCredited = true → r.supplierEarnMillis ≤ 0

structure Inserting (w : SupplierWorld) (h : Held Row Nat) : Prop where
  pending : books.Pending Extends (fun _ => 0) w.db h.writes
  rows : ∀ day id r, (overlay w.db h.writes).lookup (.usage day id) = some r →
    w.db.lookup (.usage day id) = some r ∨ NewRow w h day id r

theorem NewRow.later {id : Nat} {r : UsageRow} (new : NewRow w h day id r)
    (later : (contract cfg base).Later t h w w') : NewRow w' h day id r := by
  obtain ⟨mode, held⟩ := new.shared
  refine ⟨(later.written new.taken).trans new.unused, ?_, new.taken, new.born, ?_, new.shared,
    new.uncredited⟩
  · rw [lookup_overlay_of_mem w'.db w.db new.taken]
    exact new.serial
  · rw [later.frozen (.partition day) (partition_frozen held)]
    exact new.standing

theorem NewRow.write {id : Nat} {r : UsageRow} {k : Key} {v : Option (Row k)}
    (new : NewRow w h day id r) (other : Key.usageID id ≠ k) :
    NewRow w { h with writes := ⟨k, v⟩ :: h.writes } day id r := by
  refine ⟨new.unused, ?_, mem_cons_of_mem _ new.taken, new.born, new.standing, new.shared,
    new.uncredited⟩
  rw [overlay_cons, lookup_put_of_ne _ other]
  exact new.serial

section

variable (inserting : Inserting w h)

include inserting

theorem Inserting.later (later : (contract cfg base).Later t h w w') : Inserting w' h := by
  refine ⟨inserting.pending.later Extends.refl later, fun day id r found => ?_⟩
  by_cases written : .usage day id ∈ writtenKeys h.writes
  · rw [lookup_overlay_of_mem w'.db w.db written] at found
    rcases inserting.rows day id r found with old | new
    · exact .inl ((later.written written).trans old)
    · exact .inr (new.later later)
  · exact .inl (lookup_overlay_of_notMem w'.db written ▸ found)

theorem Inserting.hold (o : Nat) (mode : Bool) : Inserting w (h.take o mode) := by
  refine ⟨inserting.pending, fun day id r found => ?_⟩
  rcases inserting.rows day id r found with old | new
  · exact .inl old
  obtain ⟨mode, held⟩ := new.shared
  exact .inr ⟨new.unused, new.serial, new.taken, new.born, new.standing,
    ⟨mode, mem_cons_of_mem _ held⟩, new.uncredited⟩

theorem Inserting.reserve {n : Nat} (free : (overlay w.db h.writes).lookup (.usageID n) = none)
    (day : Nat) :
    Inserting w { h with writes := ⟨.usageID n, some day⟩ :: h.writes } := by
  refine ⟨(inserting.pending.cons Extends.trans (free.symm ▸ nofun)).of_moved (fun a => ?_), ?_⟩
  · rw [free]
    cases a <;> rfl
  intro day' id r found
  rw [overlay_cons, lookup_put_of_ne _ (by simp)] at found
  rcases inserting.rows day' id r found with old | new
  · exact .inl old
  have different : Key.usageID id ≠ .usageID n := by
    intro same
    cases Key.usageID.inj same
    have serial := new.serial
    rw [free] at serial
    cases serial
  exact .inr (new.write different)

theorem Inserting.insert {day id : Nat} {r : UsageRow}
    (free : (overlay w.db h.writes).lookup (.usage day id) = none) (new : NewRow w h day id r) :
    Inserting w { h with writes := ⟨.usage day id, some r⟩ :: h.writes } := by
  refine ⟨(inserting.pending.cons Extends.trans (free.symm ▸ nofun)).of_moved (fun a => ?_), ?_⟩
  · -- a row that is born credited earns nothing, so it belongs to no account
    have silent : share a (.usage day id) r = 0 := by
      cases a <;> try rfl
      case source m uid d =>
        refine if_neg (fun both => ?_)
        have earns := both.2
        rw [sourceKey, if_neg (not_lt.mpr (new.uncredited both.1))] at earns
        cases earns
      case credits i => exact if_neg (fun all => absurd all.2.2 (not_lt.mpr (new.uncredited all.2.1)))
    rw [free, weight_none, weight_some, zero_add, sub_zero]
    exact silent
  · intro day' id' r' found
    by_cases same : Key.usage day' id' = .usage day id
    · obtain ⟨rfl, rfl⟩ := Key.usage.inj same
      rw [overlay_cons, lookup_put_self] at found
      cases found
      exact .inr (new.write (by simp))
    · rw [overlay_cons, lookup_put_of_ne _ same] at found
      exact (inserting.rows day' id' r' found).imp_right fun earlier => earlier.write (by simp)

theorem Inserting.commits {inserted : List (Nat × UsageRow)} (sound : Sound base w) :
    Commits w h.writes (.inserted inserted) := by
  have moves := inserting.pending.moves
  refine ⟨inserting.pending.change, ⟨fun k => (moves k).before, ?_⟩, ?_, ?_, ?_, trivial⟩
  · intro day id r found taken
    rcases inserting.rows day id r found with old | new
    · exact ⟨r, old, .refl r⟩
    · rw [new.unused] at taken
      cases taken
  · intro day id r found
    have kept : (overlay w.db h.writes).lookup (.partition day) = w.db.lookup (.partition day) :=
      moves (.partition day)
    rcases inserting.rows day id r found with old | new
    · obtain ⟨born, serial, standing, owned⟩ := sound.rows (.usage day id) r old
      exact ⟨born, moves (.usageID id) day serial, kept ▸ standing, owned⟩
    · exact ⟨new.born, new.serial, kept ▸ new.standing,
        fun credited earns => absurd earns (not_lt.mpr (new.uncredited credited))⟩
  · exact fun id s found => .inl ((moves (.settlement id)) ▸ found)
  · exact fun operator key id found => .inl ((moves (.request operator key)) ▸ found)

end

theorem insertBatch_safe {logs : List (SupplierFinance × UsageLog × Nat)} :
    Safe cfg base t (insertBatch logs) {} w := by
  refine safe_forEach (fun _ _ h w => Inserting w h) ?_ ?_ logs []
    ⟨.nil Extends.refl, fun _ _ _ found => .inl found⟩
  · intro x rest inserted h w next inserting more w₁ later₁ w₂ later₂
    generalize born : sourceDay (usageRow (stampSupplier x.1 x.2.1) x.2.2).createdAt = day at *
    have held := ((inserting.later later₁).hold day false).later later₂
    dsimp only
    split
    · trivial
    rename_i present
    rw [held.pending.moves (.partition day)] at present
    refine safe_insertSerial trivial (fun n w₃ later₃ free => ?_)
    have held := held.later later₃
    have unused : w₃.db.lookup (.usageID n) = none := by
      cases before : w₃.db.lookup (.usageID n) with
      | none => rfl
      | some d =>
        have there := held.pending.moves (.usageID n) d before
        rw [free] at there
        cases there
    have reserved := held.reserve free day
    apply safe_insertRow
    · exact fun _ _ => trivial
    intro w₄ later₄ absent
    have taken : Key.usageID n ∈ writtenKeys
        ((⟨.usageID n, some day⟩ : (k : Key) × Option (Row k)) :: h.writes) :=
      mem_cons_self
    have shared : (day, false) ∈ (day, false) :: h.objects := mem_cons_self
    have stands : w₄.db.lookup (.partition day) = w₂.db.lookup (.partition day) :=
      (later₄.frozen _ (partition_frozen shared)).trans (later₃.frozen _ (partition_frozen shared))
    refine more _ _ w₄ (((reserved.later later₄).insert absent ⟨?_, ?_, taken, born, ?_,
      ⟨false, shared⟩, ?_⟩).hold day false)
    · rw [later₄.written taken, unused]
    · exact lookup_put_self _ _ _
    · rw [stands, present]
      rfl
    · intro credited
      have stamped := stampSupplier_credited x.1 x.2.1
      rw [show (stampSupplier x.1 x.2.1).supplierCredited = true from credited] at stamped
      exact of_decide_eq_true stamped.symm
  · intro inserted h w inserting w' later others _
    exact ((inserting.later later).commits later.inv).kept later.inv others rfl

theorem blocked_safe {facts : BlockedPartition} : Safe cfg base t (blocked facts) h w := by
  intro w₁ _ w₂ later₂ others _
  have commits : Commits w₂ ({} : Held Row Nat).writes (.blocked facts) :=
    Locked.empty.commits later₂.inv (fun a => by cases a <;> rfl) trivial
  exact commits.kept later₂.inv others rfl

theorem before_of_later (later : (contract cfg base).Later t h w w') (k : Key) :
    RowBefore k ((overlay w.db h.writes).lookup k) ((overlay w'.db h.writes).lookup k) := by
  by_cases written : k ∈ writtenKeys h.writes
  · rw [lookup_overlay_of_mem w'.db w.db written]
    exact .refl k _
  · rw [lookup_overlay_of_notMem w.db written, lookup_overlay_of_notMem w'.db written]
    exact later.rely.rows k

theorem mem_usageOfDay {view : Rows} {x : Nat × UsageRow} :
    x ∈ usageOfDay view day ↔ view.lookup (.usage day x.1) = some x.2 := by
  constructor
  · intro member
    obtain ⟨e, listed, rfl⟩ := mem_map.mp member
    obtain ⟨there, same⟩ := mem_filter.mp listed
    cases of_decide_eq_true same
    exact mem_usageEntries.mp there
  · intro found
    refine mem_map.mpr ⟨⟨day, x.1, x.2⟩, mem_filter.mpr ⟨?_, by simp⟩, rfl⟩
    exact mem_usageEntries.mpr found

theorem mem_rowsOfDay {view : Rows} {id : Nat} {r : UsageRow}
    (found : view.lookup (.usage day id) = some r) : r ∈ (usageOfDay view day).map Prod.snd :=
  mem_map.mpr ⟨(id, r), mem_usageOfDay.mpr found, rfl⟩

theorem usageOfDay_nodup (view : Rows) (day : Nat) : ((usageOfDay view day).map Prod.fst).Nodup := by
  unfold usageOfDay
  rw [map_map]
  refine List.Nodup.map_on ?_ ((usageEntries_nodup view).filter _)
  rintro ⟨d, id, r⟩ first ⟨d', id', r'⟩ second same
  obtain ⟨there, today⟩ := mem_filter.mp first
  obtain ⟨there', today'⟩ := mem_filter.mp second
  obtain rfl : d = day := of_decide_eq_true today
  obtain rfl : d' = d := of_decide_eq_true today'
  obtain rfl : id = id' := same
  have found := mem_usageEntries.mp there
  rw [mem_usageEntries.mp there'] at found
  cases found
  rfl

theorem mem_sourceKeys {rows : List UsageRow} {key : Int × Nat} :
    key ∈ sourceKeys rows ↔ ∃ r ∈ rows, sourceKey r = some key := by
  unfold sourceKeys
  rw [mem_dedup, mem_filterMap]

/-- The reconciliation of a key as far as `settled` asks. -/
def Reconciled (settled : Int × Nat → SupplierReconciliation → Prop) (d : Rows) (r : UsageRow) :
    Prop :=
  ∀ key, sourceKey r = some key →
    ∃ rec, d.lookup (.reconciliation key.1 key.2) = some rec ∧ settled key rec

def Clean (w : SupplierWorld) (day : Nat) : Prop :=
  ∀ id r, w.db.lookup (.usage day id) = some r →
    r.billed = true ∧ (0 < r.supplierEarnMillis → r.supplierCredited = true)

/-- A retirement that holds the day's partition and has found it clean. -/
structure Retiring (scope : Key → Bool) (day : Nat) (moved : Account → Int) (w : SupplierWorld)
    (h : Held Row Nat) : Prop where
  exclusive : (day, true) ∈ h.objects
  pending : books.Pending (RowStep scope) moved w.db h.writes
  clean : Clean w day
  standing : w.db.lookup (.partition day) = some ()

section

variable {scope : Key → Bool} {moved : Account → Int}
  (retiring : Retiring scope day moved w h) (onward : (contract cfg base).Later t h w w')

include retiring onward

theorem Retiring.same_usage (id : Nat) :
    w'.db.lookup (.usage day id) = w.db.lookup (.usage day id) :=
  onward.frozen _ (usage_frozen retiring.exclusive id)

theorem Retiring.later : Retiring scope day moved w' h :=
  ⟨retiring.exclusive, retiring.pending.later refl onward,
    fun id r found => retiring.clean id r (retiring.same_usage onward id ▸ found),
    (onward.frozen _ (partition_frozen retiring.exclusive)).trans retiring.standing⟩

/-- A closed reconciliation stays as it is. -/
theorem Retiring.reconciled {settled : Int × Nat → SupplierReconciliation → Prop}
    (kept : ∀ key rec rec', (rec.state = .closed → rec' = rec) → settled key rec → settled key rec')
    (before : ∀ id r, w.db.lookup (.usage day id) = some r →
      Reconciled settled (overlay w.db h.writes) r) (id : Nat) (r : UsageRow)
    (found : w'.db.lookup (.usage day id) = some r) :
    Reconciled settled (overlay w'.db h.writes) r := by
  intro key named
  rw [retiring.same_usage onward] at found
  obtain ⟨rec, there, state⟩ := before id r found key named
  obtain ⟨rec', there', same⟩ := before_of_later onward (.reconciliation key.1 key.2) rec there
  exact ⟨rec', there', kept key rec rec' same state⟩

end

/-- The reconciliations are the only rows that closing touches. -/
def closeScope : Key → Bool
  | .reconciliation _ _ => true
  | _ => false

/-- A drop takes the rows of one day and its partition. -/
def dropScope (day : Nat) : Key → Bool
  | .usage d _ => decide (d = day)
  | .partition d => decide (d = day)
  | .reconciliation _ _ => true
  | _ => false

variable {revision now : Nat} {r : SupplierReconciliation}

theorem closeRecon_step {r' : SupplierReconciliation} (key : Int × Nat)
    (closed : closeRecon revision now r = some r') :
    r'.state = .closed ∧ RowStep closeScope (.reconciliation key.1 key.2) (some r) (some r') ∧
      ∀ a, weight (share a) (.reconciliation key.1 key.2) (some r') -
        weight (share a) (.reconciliation key.1 key.2) (some r) = 0 := by
  unfold closeRecon at closed
  split at closed
  next opened =>
    cases closed
    refine ⟨rfl, ⟨fun r₀ same => ⟨_, rfl, fun shut => ?_⟩, trivial, nofun⟩, fun a => ?_⟩
    · cases same
      rw [opened] at shut
      cases shut
    · cases a <;> exact sub_self _
  · cases closed

theorem closed_of_closeRecon (unmatched : closeRecon revision now r = none) :
    r.state = .closed := by
  unfold closeRecon at unmatched
  cases state : r.state with
  | opened => simp [state] at unmatched
  | closed => rfl

/-- Every reconciliation of the day's rows is closed. -/
abbrev Closed (w : SupplierWorld) (h : Held Row Nat) (day : Nat) : Prop :=
  ∀ id r, w.db.lookup (.usage day id) = some r →
    Reconciled (fun _ rec => rec.state = .closed) (overlay w.db h.writes) r

theorem closeReconciledSourceDays_safe {next : List (Int × Nat) → Tx}
    (start : Retiring closeScope day (fun _ => 0) w h) (unwritten : h.writes = [])
    (exist : ∀ id r, w.db.lookup (.usage day id) = some r →
      Reconciled (fun _ _ => True) (overlay w.db h.writes) r)
    (followed : ∀ keys h' w', Retiring closeScope day (fun _ => 0) w' h' → Closed w' h' day →
      Safe cfg base t (next keys) h' w') :
    Safe cfg base t (closeReconciledSourceDays day revision next) h w := by
  intro w₁ later₁
  -- what is not closed yet is still to come
  let P : List (Int × Nat) → List (Int × Nat) → Held Row Nat → SupplierWorld → Prop :=
    fun rest _ h w => Retiring closeScope day (fun _ => 0) w h ∧
      ∀ id r, w.db.lookup (.usage day id) = some r →
        Reconciled (fun key rec => rec.state = .closed ∨ key ∈ rest) (overlay w.db h.writes) r
  refine safe_updateEach P ?_ ?_ ?_ ?_ ?_
  · rintro rest keys h w w' ⟨retiring, open_⟩ later
    refine ⟨retiring.later later, retiring.reconciled later (fun key rec rec' kept state => ?_) open_⟩
    exact state.imp_left (fun shut => by rw [kept shut]; exact shut)
  · rintro k rest keys h w ⟨retiring, open_⟩ unmatched
    refine ⟨retiring, fun id r found key named => ?_⟩
    obtain ⟨rec, there, state⟩ := open_ id r found key named
    refine ⟨rec, there, ?_⟩
    rcases state with shut | ahead
    · exact .inl shut
    rcases mem_cons.mp ahead with rfl | ahead
    · rw [there] at unmatched
      exact .inl (closed_of_closeRecon unmatched)
    · exact .inr ahead
  · rintro k rest keys h w rec rec' ⟨retiring, open_⟩ found closes
    obtain ⟨shut, step, amounts⟩ := closeRecon_step k closes
    refine ⟨⟨retiring.exclusive, (retiring.pending.cons trans (found ▸ step)).of_moved ?_,
      retiring.clean, retiring.standing⟩, fun id r there key named => ?_⟩
    · intro a
      rw [found]
      exact (zero_add _).trans (amounts a)
    · by_cases same : Key.reconciliation key.1 key.2 = .reconciliation k.1 k.2
      · obtain ⟨uid, date⟩ := Key.reconciliation.inj same
        obtain rfl : key = k := Prod.ext uid date
        exact ⟨rec', lookup_put_self _ _ _, .inl shut⟩
      · obtain ⟨rec₀, there₀, state⟩ := open_ id r there key named
        refine ⟨rec₀, (lookup_put_of_ne _ same).trans there₀, ?_⟩
        refine state.imp_right (fun ahead => ?_)
        rcases mem_cons.mp ahead with rfl | ahead
        · exact absurd rfl same
        · exact ahead
  · rintro keys h w ⟨retiring, open_⟩
    refine followed keys h w retiring (fun id r found key named => ?_)
    obtain ⟨rec, there, state⟩ := open_ id r found key named
    exact ⟨rec, there, state.resolve_right (not_mem_nil)⟩
  · intro ys order
    refine ⟨start.later later₁, fun id r found key named => ?_⟩
    obtain ⟨rec, there, -⟩ :=
      start.reconciled later₁ (fun _ _ _ _ _ => trivial) exist id r found key named
    refine ⟨rec, there, ?_⟩
    rw [unwritten, overlay_nil] at there
    cases closes : closeRecon revision w₁.clock rec with
    | none => exact .inl (closed_of_closeRecon closes)
    | some rec' =>
      refine .inr (order.symm.subset (mem_filter.mpr ⟨mem_sourceKeys.mpr ⟨r, ?_, named⟩, ?_⟩))
      · rw [unwritten]
        exact mem_rowsOfDay found
      · rw [unwritten, overlay_nil, there, Option.bind_some, closes]
        rfl

def dropMoved (day : Nat) (x : Nat × UsageRow) (a : Account) : Int := -share a (.usage day x.1) x.2

theorem dropped_posting {rows : List (Nat × UsageRow)}
    (credited : ∀ x ∈ rows, 0 < x.2.supplierEarnMillis → x.2.supplierCredited = true) (a : Account) :
    (rows.map (dropMoved day · a)).sum - share a (.partition day) () =
      posting a (.dropped day rows) := by
  have rows_sum : ∀ {f : Nat × UsageRow → Int}, (∀ x ∈ rows, share a (.usage day x.1) x.2 = f x) →
      (rows.map (dropMoved day · a)).sum = -(rows.map f).sum := by
    intro f each
    have negated : rows.map (dropMoved day · a) = (rows.map f).map (fun n => -n) := by
      rw [map_map]
      exact map_congr_left (fun x member => congrArg Neg.neg (each x member))
    rw [negated, sum_neg]
  cases a with
  | source m uid d =>
    rw [rows_sum]
    · exact sub_zero _
    intro x member
    have marked : sourceKey x.2 = some (uid, d) → x.2.supplierCredited = true := by
      intro named
      apply credited x member
      by_contra worthless
      rw [sourceKey, if_neg worthless] at named
      cases named
    exact if_congr ⟨And.right, fun named => ⟨marked named, named⟩⟩ rfl rfl
  | credits id =>
    rw [rows_sum]
    · exact sub_zero _
    intro x member
    refine if_congr ⟨fun all => ⟨all.1, all.2.2⟩, fun both => ⟨both.1, ?_, both.2⟩⟩ rfl rfl
    exact credited x member both.2
  | partitions d =>
    rw [rows_sum (f := fun _ => 0) (fun _ _ => rfl)]
    simp only [share, posting, map_const', sum_replicate, nsmul_zero, neg_zero, zero_sub]
    split <;> rfl
  | _ =>
    rw [rows_sum (f := fun _ => 0) (fun _ _ => rfl)]
    simp [share, posting]

theorem before_put {d : Rows} {k : Key} {v : Option (Row k)} (step : RowBefore k (d.lookup k) v)
    (j : Key) : RowBefore j (d.lookup j) ((put d k v).lookup j) := by
  by_cases same : j = k
  · subst same
    rw [lookup_put_self]
    exact step
  · rw [lookup_put_of_ne v same]
    exact .refl j _

/-- The drop while the rows in `rest` are still to be removed. -/
structure Dropping (day : Nat) (rows rest : List (Nat × UsageRow)) (w : SupplierWorld)
    (h : Held Row Nat) : Prop where
  retiring : Retiring (dropScope day) day
    (fun a => (rows.map (dropMoved day · a)).sum - (rest.map (dropMoved day · a)).sum) w h
  left : ∀ x, (overlay w.db h.writes).lookup (.usage day x.1) = some x.2 ↔ x ∈ rest
  distinct : (rest.map Prod.fst).Nodup
  present : (overlay w.db h.writes).lookup (.partition day) = some ()
  accounted : ∀ x ∈ rows, Accounted (overlay w.db h.writes) day x

variable {rows rest : List (Nat × UsageRow)}

theorem Dropping.later (dropping : Dropping day rows rest w h)
    (later : (contract cfg base).Later t h w w') : Dropping day rows rest w' h := by
  have exclusive := dropping.retiring.exclusive
  refine ⟨dropping.retiring.later later, fun x => ?_, dropping.distinct, ?_, ?_⟩
  · rw [lookup_overlay_congr h.writes (.inr (later.frozen _ (usage_frozen exclusive x.1)))]
    exact dropping.left x
  · rw [lookup_overlay_congr h.writes (.inr (later.frozen _ (partition_frozen exclusive)))]
    exact dropping.present
  · exact fun x member => (dropping.accounted x member).mono (before_of_later later)

theorem Dropping.remove {x : Nat × UsageRow} (dropping : Dropping day rows (x :: rest) w h)
    (lock : Nat × Bool) :
    Dropping day rows rest w
      { writes := ⟨.usage day x.1, none⟩ :: h.writes, objects := lock :: h.objects } := by
  have found := (dropping.left x).mpr mem_cons_self
  obtain ⟨fresh, distinct⟩ := nodup_cons.mp dropping.distinct
  have step : RowStep (dropScope day) (.usage day x.1) (some x.2) none :=
    ⟨trivial, nofun, fun outside => absurd outside (by simp [dropScope])⟩
  refine ⟨⟨mem_cons_of_mem _ dropping.retiring.exclusive,
    (dropping.retiring.pending.cons trans (found ▸ step)).of_moved ?_,
    dropping.retiring.clean, dropping.retiring.standing⟩, ?_, distinct, ?_, ?_⟩
  · intro a
    rw [found, map_cons, sum_cons, weight_none, weight_some, dropMoved]
    show _ + (0 - share a (.usage day x.1) x.2) = _
    ring
  · intro y
    rw [overlay_cons]
    by_cases same : Key.usage day y.1 = .usage day x.1
    · obtain ⟨-, id⟩ := Key.usage.inj same
      rw [id, lookup_put_self]
      exact ⟨nofun, fun member => absurd (id ▸ mem_map_of_mem member) fresh⟩
    · rw [lookup_put_of_ne _ same, dropping.left y, mem_cons]
      exact or_iff_right (fun equal => same (by rw [equal]))
  · rw [overlay_cons, lookup_put_of_ne _ (by simp)]
    exact dropping.present
  · exact fun y member => (dropping.accounted y member).mono
      (before_put (k := .usage day x.1) trivial)

theorem Dropping.commits (dropping : Dropping day rows [] w h) (sound : Sound base w) :
    Commits w (⟨.partition day, none⟩ :: h.writes) (.dropped day rows) := by
  have step : RowStep (dropScope day) (.partition day) (some ()) none :=
    ⟨fun _ => rfl, trivial, fun outside => absurd outside (by simp [dropScope])⟩
  have pending : books.Pending (RowStep (dropScope day)) (posting · (.dropped day rows)) w.db
      (⟨.partition day, none⟩ :: h.writes) := by
    apply (dropping.retiring.pending.cons trans (dropping.present ▸ step)).of_moved
    intro a
    rw [← dropped_posting (fun x member earns => ((dropping.accounted x member).2.2.2 earns).1),
      dropping.present, weight_none, weight_some, map_nil, sum_nil]
    show _ + (0 - share a (.partition day) ()) = _
    ring
  have wider : ∀ k, retireScope k = false → dropScope day k = false := by
    intro k outside
    cases k <;> first | rfl | cases outside
  refine .ofScope retireScope sound (pending.mono (fun _ _ _ => mono wider)) ?_
    (fun _ => rfl) (fun _ _ => rfl) ⟨?_, ?_⟩
  · intro d id r found
    by_cases today : d = day
    · subst today
      rw [overlay_cons, lookup_put_of_ne _ (by simp)] at found
      exact absurd ((dropping.left (id, r)).mp found) not_mem_nil
    · exact usage_standing sound pending.moves (by simp [dropScope, today]) found
  · exact lookup_put_self _ _ _
  · exact fun x member => (dropping.accounted x member).mono
      (before_put (k := .partition day) (fun _ => rfl))

theorem dropPartition_safe (start : Retiring closeScope day (fun _ => 0) w h)
    (closed : Closed w h day) : Safe cfg base t (dropPartition day) h w := by
  intro w₁ later₁
  have retiring := start.later later₁
  have closed :=
    start.reconciled later₁ (fun _ _ _ kept shut => by rw [kept shut]; exact shut) closed
  have frame := fun k => (retiring.pending.moves k).frame
  have dropping : Dropping day (usageOfDay (overlay w₁.db h.writes) day)
      (usageOfDay (overlay w₁.db h.writes) day) w₁ h := by
    have wider : ∀ k, dropScope day k = false → closeScope k = false := by
      intro k outside
      cases k <;> first | rfl | cases outside
    refine ⟨⟨retiring.exclusive, (retiring.pending.mono (fun _ _ _ => mono wider)).of_moved ?_,
      retiring.clean, retiring.standing⟩, fun x => mem_usageOfDay.symm, usageOfDay_nodup _ _, ?_, ?_⟩
    · exact fun a => (sub_self _).symm
    · rw [frame (.partition day) rfl]
      exact retiring.standing
    intro x member
    have found : w₁.db.lookup (.usage day x.1) = some x.2 := by
      rw [← frame (.usage day x.1) rfl]
      exact mem_usageOfDay.mp member
    obtain ⟨born, serial, -, owned⟩ := later₁.inv.rows (.usage day x.1) x.2 found
    obtain ⟨billed, credited⟩ := retiring.clean x.1 x.2 found
    refine ⟨(retiring.pending.moves (.usageID x.1)).before day serial, billed, born,
      fun earns => ⟨credited earns, ?_⟩⟩
    obtain ⟨uid, supplier⟩ := Option.isSome_iff_exists.mp (owned (credited earns) earns)
    refine ⟨uid, supplier, closed x.1 x.2 found (uid, day) ?_⟩
    rw [sourceKey, if_pos earns, supplier, born]
    rfl
  refine safe_forEach (fun rest _ h w => Dropping day _ rest w h) ?_ ?_ _ () dropping
  · intro x rest _ h w next dropping more
    apply safe_removeRow
    · intro w' later gone
      rw [((dropping.later later).left x).mpr mem_cons_self] at gone
      cases gone
    · exact fun w' row later _ => more () _ w' ((dropping.later later).remove (day, false))
  · intro _ h w dropping
    apply safe_removeRow
    · intro w' later gone
      rw [(dropping.later later).present] at gone
      cases gone
    · intro w₂ row later₂ _ w₃ later₃ others _
      have still := (dropping.later later₂).later later₃.of_access
      exact (still.commits later₃.inv).kept later₃.inv others rfl

/-- Without a mismatch every key of the day's rows has a reconciliation; it is
closed unless it is open and agrees. -/
theorem exists_of_mismatches {view : Rows} {rows : List UsageRow} {r : UsageRow}
    (matched : mismatches view rows = []) (member : r ∈ rows) :
    Reconciled (fun key rec => key ∈ openMatched view rows ∨ rec.state = .closed) view r := by
  intro key named
  have source := mem_sourceKeys.mpr ⟨r, member, named⟩
  have agreed := filter_eq_nil_iff.mp (append_eq_nil_iff.mp matched).1 key source
  cases there : view.lookup (.reconciliation key.1 key.2) with
  | none => simp [there] at agreed
  | some rec =>
    have agrees : reconAgrees rows key rec = true := by simpa [there] using agreed
    refine ⟨rec, rfl, ?_⟩
    cases state : rec.state with
    | closed => exact .inr state
    | opened => exact .inl (mem_filter.mpr ⟨source, by simp [there, state, agrees]⟩)

theorem retireOneUsageLogPartition_safe :
    Safe cfg base t (retireOneUsageLogPartition day revision) {} w := by
  apply exec_safe blocked_safe
  intro w₁ _ w₂ later₂
  dsimp only
  split
  · exact commit_nothing rfl
  rename_i present
  refine safe_ite (fun _ => blocked_safe) (fun settled => ?_)
  simp only [ne_eq, not_or, not_not, filter_eq_nil_iff] at settled
  have clean : Clean w₂ day := by
    intro id r found
    have member := mem_rowsOfDay found
    refine ⟨by simpa using settled.2 r member, fun earns => ?_⟩
    have credited := settled.1 r member
    simpa [UsageRow.uncredited, earns] using credited
  have retiring : Retiring closeScope day (fun _ => 0) w₂ (({} : Held Row Nat).take day true) :=
    ⟨mem_cons_self, .nil refl, clean, present⟩
  intro w₃ later₃
  have retiring := retiring.later later₃
  refine safe_ite (fun _ => blocked_safe) (fun matched => ?_)
  have reconciled := fun id r (found : w₃.db.lookup (.usage day id) = some r) =>
    exists_of_mismatches (not_not.mp matched) (mem_rowsOfDay found)
  refine safe_ite (fun _ => ?_) (fun none_open => ?_)
  · refine closeReconciledSourceDays_safe retiring rfl ?_ (fun keys h' w' retiring' closed => ?_)
    · intro id r found key named
      obtain ⟨rec, there, -⟩ := reconciled id r found key named
      exact ⟨rec, there, trivial⟩
    · exact safe_ite (fun _ => blocked_safe) (fun _ => dropPartition_safe retiring' closed)
  · refine dropPartition_safe retiring (fun id r found key named => ?_)
    obtain ⟨rec, there, state⟩ := reconciled id r found key named
    rw [not_not.mp none_open] at state
    exact ⟨rec, there, state.resolve_left not_mem_nil⟩

end C3Api.Supplier
