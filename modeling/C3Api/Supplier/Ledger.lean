import C3Api.ReadCommitted.Books
import C3Api.Supplier.Settlement

/-!
# The invariant of the supplier ledger

Money, earnings and counts are accounts over the tables, and every event posts to
them; the books balance. Beside them stand what each row owes to the others and
what each logged event says of the tables. While a transaction runs, others may
only let rows grow, and the lock on a balance keeps the settlements of its supplier
as they are.
-/

namespace C3Api.Supplier

open ReadCommitted UIDCredit

/-- What the books add up: the money of a supplier, the reconciliations and their
source rows, and how often a row was credited, a partition exists, a key was used
and a settlement moved. -/
inductive Account where
  | available (uid : Int)
  | lifetimeCredited (uid : Int)
  | lifetimePaid (uid : Int)
  | frozen (uid : Int)
  | live (uid : Int)
  | settledPaid (uid : Int)
  | reconciled (m : Measure) (uid : Int) (day : Nat)
  | source (m : Measure) (uid : Int) (day : Nat)
  | credits (id : Nat)
  | partitions (day : Nat)
  | requests (operator : Int) (key : String)
  | revision (id : Nat)
  | rejections (id : Nat)
  | payouts (id : Nat)

def share (a : Account) : (k : Key) → Row k → Int
  | .balance u, b =>
    match a with
    | .available uid => if u = uid then b.available else 0
    | .lifetimeCredited uid => if u = uid then b.lifetimeCredited else 0
    | .lifetimePaid uid => if u = uid then b.lifetimePaid else 0
    | _ => 0
  | .chunk u _, c =>
    match a with
    | .frozen uid => if u = uid then c.amount else 0
    | _ => 0
  | .settlement i, s =>
    match a with
    | .live uid => if s.supplierUserID = uid ∧ s.status ≠ .rejected then s.amountMillis else 0
    | .settledPaid uid => if s.supplierUserID = uid ∧ s.status = .paid then s.amountMillis else 0
    | .revision id => if i = id then s.revision else 0
    | .rejections id => if i = id ∧ s.status = .rejected then 1 else 0
    | .payouts id => if i = id ∧ s.status = .paid then 1 else 0
    | _ => 0
  | .reconciliation u d, r =>
    match a with
    | .reconciled m uid day => if u = uid ∧ d = day then r.measure m else 0
    | _ => 0
  | .usage _ i, r =>
    match a with
    | .source m uid day =>
      if r.supplierCredited = true ∧ sourceKey r = some (uid, day) then r.measure m else 0
    | .credits id =>
      if i = id ∧ r.supplierCredited = true ∧ 0 < r.supplierEarnMillis then 1 else 0
    | _ => 0
  | .partition d, _ =>
    match a with
    | .partitions day => if d = day then 1 else 0
    | _ => 0
  | .request o k, _ =>
    match a with
    | .requests operator key => if o = operator ∧ k = key then 1 else 0
    | _ => 0
  | _, _ => 0

def BatchRow.measure (b : BatchRow) : Measure → Int
  | .grossCost => b.cost
  | .earned => b.earn
  | .rowCount => 1

/-- The part of a batch that belongs to a supplier and a source day. -/
def batchSum (rows : List BatchRow) (m : Measure) (uid : Int) (day : Nat) : Int :=
  (rows.map fun b => if b.uid = uid ∧ sourceDay b.createdAt = day then b.measure m else 0).sum

def earnedBy (rows : List BatchRow) (uid : Int) : Int :=
  (rows.map fun b => if b.uid = uid then b.earn else 0).sum

def totalOf (amount : UIDCredit → Int) (totals : List UIDCredit) (uid : Int) : Int :=
  (totals.map fun t => if t.uid = uid then amount t else 0).sum

def deltaOf (deltas : List (Int × Int)) (uid : Int) : Int :=
  (deltas.map fun d => if d.1 = uid then d.2 else 0).sum

def movePosting (id : Nat) (supplierUID amount : Int) (target : SupplierSettlementStatus) :
    Account → Int
  | .available uid => if supplierUID = uid ∧ target = .rejected then amount else 0
  | .live uid => if supplierUID = uid ∧ target = .rejected then -amount else 0
  | .lifetimePaid uid => if supplierUID = uid ∧ target = .paid then amount else 0
  | .settledPaid uid => if supplierUID = uid ∧ target = .paid then amount else 0
  | .revision i => if id = i then 1 else 0
  | .rejections i => if id = i ∧ target = .rejected then 1 else 0
  | .payouts i => if id = i ∧ target = .paid then 1 else 0
  | _ => 0

def posting (a : Account) : Event → Int
  | .credited rows totals =>
    match a with
    | .available uid => totalOf toAvailable totals uid
    | .frozen uid => totalOf toFrozen totals uid
    | .lifetimeCredited uid => earnedBy rows uid
    | .reconciled m uid day => batchSum rows m uid day
    | .source m uid day => batchSum rows m uid day
    | .credits id => (rows.map fun b => if b.id = id then 1 else 0).sum
    | _ => 0
  | .thawed deltas =>
    match a with
    | .available uid => deltaOf deltas uid
    | .frozen uid => -deltaOf deltas uid
    | _ => 0
  | .requested id req =>
    match a with
    | .available uid => if req.supplierUID = uid then -req.amountMillis else 0
    | .live uid => if req.supplierUID = uid then req.amountMillis else 0
    | .requests operator key =>
      if req.operatorUID = operator ∧ req.requestKey = key then 1 else 0
    | .revision i => if id = i then 1 else 0
    | _ => 0
  | .moved id supplierUID amount target => movePosting id supplierUID amount target a
  | .claimed id _ _ => movePosting id 0 0 .paying a
  | .dropped day rows =>
    match a with
    | .source m uid d =>
      -(rows.map fun x => if sourceKey x.2 = some (uid, d) then x.2.measure m else 0).sum
    | .credits id =>
      -(rows.map fun x => if x.1 = id ∧ 0 < x.2.supplierEarnMillis then 1 else 0).sum
    | .partitions d => if day = d then -1 else 0
    | _ => 0
  | _ => 0

def books : Books Row Event Account := ⟨share, posting⟩

/-- Only the two flags of a usage row move, and only a row with a supplier is
credited. -/
structure UsageRow.Marks (r r' : UsageRow) : Prop where
  same : r' = { r with billed := r'.billed, supplierCredited := r'.supplierCredited }
  owner : r'.supplierCredited = true → r.supplierCredited = true ∨ r.supplierUserID.isSome = true

theorem UsageRow.Marks.refl (r : UsageRow) : r.Marks r := ⟨rfl, .inl⟩

theorem UsageRow.Marks.trans {r r' r'' : UsageRow} (first : r.Marks r') (second : r'.Marks r'') :
    r.Marks r'' := by
  have supplier : r'.supplierUserID = r.supplierUserID := by rw [first.same]
  refine ⟨?_, ?_⟩
  · rw [second.same, first.same]
  intro credited
  rcases second.owner credited with earlier | owned
  · exact first.owner earlier
  · exact .inr (supplier ▸ owned)

/-- A later version of a settlement. -/
structure SupplierSettlement.Before (s s' : SupplierSettlement) : Prop where
  supplierUserID : s'.supplierUserID = s.supplierUserID
  kind : s'.kind = s.kind
  amountMillis : s'.amountMillis = s.amountMillis
  requestKey : s'.requestKey = s.requestKey
  requestedOperator : s'.requestedOperator = s.requestedOperator
  paymentKey : ∀ key, s.paymentKey = some key → s'.paymentKey = some key
  payeeSnapshot : ∀ payee, s.payeeSnapshot = some payee → s'.payeeSnapshot = some payee

variable {s s' : SupplierSettlement} {d d' : Rows} (k : Key)

/-- What only a claim of the payment changes. -/
def SupplierSettlement.fixed (s : SupplierSettlement) :=
  (s.supplierUserID, s.kind, s.amountMillis, s.requestKey, s.requestedOperator, s.paymentKey,
    s.payeeSnapshot)

theorem SupplierSettlement.Before.of_kept (kept : s'.fixed = s.fixed) : s.Before s' := by
  simp only [fixed, Prod.mk.injEq] at kept
  obtain ⟨supplier, kind, amount, request, operator, paymentKey, payee⟩ := kept
  exact ⟨supplier, kind, amount, request, operator, fun _ found => paymentKey.trans found,
    fun _ found => payee.trans found⟩

theorem SupplierSettlement.Before.refl (s : SupplierSettlement) : s.Before s := .of_kept rfl

theorem SupplierSettlement.Before.trans {s'' : SupplierSettlement} (first : s.Before s')
    (second : s'.Before s'') : s.Before s'' :=
  ⟨second.supplierUserID.trans first.supplierUserID, second.kind.trans first.kind,
    second.amountMillis.trans first.amountMillis, second.requestKey.trans first.requestKey,
    second.requestedOperator.trans first.requestedOperator,
    fun key found => second.paymentKey key (first.paymentKey key found),
    fun payee found => second.payeeSnapshot payee (first.payeeSnapshot payee found)⟩

def Solvent (v : Option SupplierBalance) : Prop := ∀ b, v = some b → 0 ≤ b.available

/-- What every transaction lets a row become. -/
def RowBefore : (k : Key) → Option (Row k) → Option (Row k) → Prop
  | .usageID _, v, v' => ∀ day, v = some day → v' = some day
  | .partition _, v, v' => v = none → v' = none
  | .balance _, v, v' => (v.isSome = true → v'.isSome = true) ∧ (Solvent v → Solvent v')
  | .reconciliation _ _, v, v' =>
    ∀ r, v = some r → ∃ r', v' = some r' ∧ (r.state = .closed → r' = r)
  | .settlement _, v, v' => ∀ s, v = some s → ∃ s', v' = some s' ∧ s.Before s'
  | .request _ _, v, v' => ∀ id, v = some id → v' = some id
  | _, _, _ => True

variable {id day : Nat} {req : ApplySettlementRequest} (v : Option (Row k))

theorem RowBefore.refl : RowBefore k v v := by
  cases k with
  | usageID id | request operator key => exact fun _ found => found
  | «partition» day => exact id
  | balance uid => exact ⟨id, id⟩
  | reconciliation uid day => exact fun r found => ⟨r, found, fun _ => rfl⟩
  | settlement id => exact fun s found => ⟨s, found, .refl s⟩
  | _ => trivial

theorem RowBefore.trans (u v x : Option (Row k)) (first : RowBefore k u v)
    (second : RowBefore k v x) : RowBefore k u x := by
  cases k with
  | usageID id => exact fun day found => second day (first day found)
  | «partition» day => exact fun gone => second (first gone)
  | balance uid => exact ⟨second.1 ∘ first.1, second.2 ∘ first.2⟩
  | reconciliation uid day =>
    intro r found
    obtain ⟨r', found', kept⟩ := first r found
    obtain ⟨r'', found'', kept'⟩ := second r' found'
    refine ⟨r'', found'', fun closed => ?_⟩
    cases kept closed
    exact kept' closed
  | settlement id =>
    intro s found
    obtain ⟨s', found', before⟩ := first s found
    obtain ⟨s'', found'', after⟩ := second s' found'
    exact ⟨s'', found'', before.trans after⟩
  | request operator key => exact fun id found => second id (first id found)
  | _ => trivial

/-- What others may do to the tables while a transaction runs. An id that the
sequence has handed out is never inserted again. -/
structure Grows (d d' : Rows) : Prop where
  rows : ∀ k, RowBefore k (d.lookup k) (d'.lookup k)
  usage : ∀ day id r', d'.lookup (.usage day id) = some r' →
    (d.lookup (.usageID id)).isSome = true → ∃ r, d.lookup (.usage day id) = some r ∧ r.Marks r'

theorem Grows.refl (d : Rows) : Grows d d :=
  ⟨fun k => .refl k _, fun _ _ r found _ => ⟨r, found, .refl r⟩⟩

theorem Grows.serial (grows : Grows d d') (found : d.lookup (.usageID id) = some day) :
    d'.lookup (.usageID id) = some day :=
  grows.rows (.usageID id) day found

theorem Grows.trans {d'' : Rows} (first : Grows d d') (second : Grows d' d'') : Grows d d'' := by
  refine ⟨fun k => .trans k _ _ _ (first.rows k) (second.rows k), ?_⟩
  intro day id r'' found taken
  obtain ⟨day', serial⟩ := Option.isSome_iff_exists.mp taken
  obtain ⟨r', found', marks'⟩ :=
    second.usage day id r'' found (by rw [first.serial serial]; rfl)
  obtain ⟨r, found'', marks⟩ := first.usage day id r' found' taken
  exact ⟨r, found'', marks.trans marks'⟩

/-- The settlement that a request and a reply speak of. -/
structure Names (s : SupplierSettlement) (req : ApplySettlementRequest) : Prop where
  operator : s.requestedOperator = req.operatorUID
  key : s.requestKey = req.requestKey
  kind : s.kind = req.kind
  supplier : s.supplierUserID = req.supplierUID
  amount : s.amountMillis = req.amountMillis

/-- What is on record of a row once its partition is dropped. -/
def Accounted (d : Rows) (day : Nat) (x : Nat × UsageRow) : Prop :=
  d.lookup (.usageID x.1) = some day ∧ x.2.billed = true ∧ sourceDay x.2.createdAt = day ∧
    (0 < x.2.supplierEarnMillis → x.2.supplierCredited = true ∧ ∃ uid,
      x.2.supplierUserID = some uid ∧
      ∃ r, d.lookup (.reconciliation uid day) = some r ∧ r.state = .closed)

/-- What a logged event says of the tables from then on. -/
def Event.Recorded (d : Rows) : Event → Prop
  | .credited rows totals => ∀ uid, totalOf earn totals uid = earnedBy rows uid
  | .requested id req => ∃ s, d.lookup (.settlement id) = some s ∧ Names s req
  | .replied id req => ∃ s, d.lookup (.settlement id) = some s ∧ Names s req
  | .claimed id key payee => ∃ s, d.lookup (.settlement id) = some s ∧
      s.paymentKey = some key ∧ s.payeeSnapshot = some payee
  | .dropped day rows => d.lookup (.partition day) = none ∧ ∀ x ∈ rows, Accounted d day x
  | _ => True

theorem Names.before (names : Names s req) (before : s.Before s') : Names s' req :=
  ⟨before.requestedOperator.trans names.operator, before.requestKey.trans names.key,
    before.kind.trans names.kind, before.supplierUserID.trans names.supplier,
    before.amountMillis.trans names.amount⟩

section

variable (grows : ∀ k, RowBefore k (d.lookup k) (d'.lookup k))

include grows

theorem names_mono (named : ∃ s, d.lookup (.settlement id) = some s ∧ Names s req) :
    ∃ s, d'.lookup (.settlement id) = some s ∧ Names s req := by
  obtain ⟨s, found, names⟩ := named
  obtain ⟨s', found', before⟩ := grows (.settlement id) s found
  exact ⟨s', found', names.before before⟩

theorem Accounted.mono {x : Nat × UsageRow} (accounted : Accounted d day x) :
    Accounted d' day x := by
  obtain ⟨serial, billed, born, earning⟩ := accounted
  refine ⟨grows (.usageID x.1) day serial, billed, born, fun positive => ?_⟩
  obtain ⟨credited, uid, supplier, r, found, closed⟩ := earning positive
  obtain ⟨r', found', kept⟩ := grows (.reconciliation uid day) r found
  exact ⟨credited, uid, supplier, r', found', (kept closed).symm ▸ closed⟩

theorem Event.Recorded.mono {e : Event} (recorded : e.Recorded d) : e.Recorded d' := by
  cases e with
  | credited rows totals => exact recorded
  | requested id req | replied id req => exact names_mono grows recorded
  | claimed id key payee =>
    obtain ⟨s, found, keyed, paid⟩ := recorded
    obtain ⟨s', found', before⟩ := grows (.settlement id) s found
    exact ⟨s', found', before.paymentKey key keyed, before.payeeSnapshot payee paid⟩
  | dropped day rows =>
    exact ⟨grows (.partition day) recorded.1, fun x member =>
      Accounted.mono grows (recorded.2 x member)⟩
  | _ => trivial

end

/-- What a row owes to the rest of the ledger. -/
def RowOk (w : SupplierWorld) : (k : Key) → Row k → Prop
  | .usage day id, r => sourceDay r.createdAt = day ∧ w.db.lookup (.usageID id) = some day ∧
      (w.db.lookup (.partition day)).isSome = true ∧
      (r.supplierCredited = true → 0 < r.supplierEarnMillis → r.supplierUserID.isSome = true)
  | .balance _, b => 0 ≤ b.available
  | .settlement id, s => 0 < s.amountMillis ∧
      (w.db.lookup (.balance s.supplierUserID)).isSome = true ∧
      w.db.lookup (.request s.requestedOperator s.requestKey) = some id ∧
      (s.paymentKey.isSome = true ∨ s.payeeSnapshot.isSome = true →
        ∃ key payee, Event.claimed id key payee ∈ w.log)
  | .request operator key, id => ∃ s, w.db.lookup (.settlement id) = some s ∧
      s.requestedOperator = operator ∧ s.requestKey = key
  | _, _ => True

/-- The invariant; `base` is the empty ledger it started from. -/
structure Sound (base : Rows) (w : SupplierWorld) : Prop where
  balanced : books.Balanced base w
  rows : ∀ k row, w.db.lookup k = some row → RowOk w k row
  recorded : ∀ e ∈ w.log, e.Recorded w.db

/-- The lock on a balance keeps the settlements of its supplier. -/
def Shielded : Key → SupplierWorld → SupplierWorld → Prop
  | .balance uid, w, w' => ∀ id s, w.db.lookup (.settlement id) = some s →
      s.supplierUserID = uid → w'.db.lookup (.settlement id) = some s
  | _, _, _ => True

theorem Shielded.refl (w : SupplierWorld) : Shielded k w w := by
  cases k with
  | balance uid => exact fun _ _ found _ => found
  | _ => trivial

theorem Shielded.trans {k : Key} {w w' w'' : SupplierWorld} (first : Shielded k w w')
    (second : Shielded k w' w'') : Shielded k w w'' := by
  cases k with
  | balance uid => exact fun id s found owner => second id s (first id s found owner) owner
  | _ => trivial

def contract (cfg : SupplierRepoConfig) (base : Rows) : Contract (system cfg) where
  inv := Sound base
  rely _ w w' := Grows w.db w'.db
  shield := Shielded
  rely_refl _ w := .refl w.db
  rely_trans first second := first.trans second
  shield_refl := Shielded.refl
  shield_trans := Shielded.trans

/-- A transaction that keeps the ledger, whatever the others commit. -/
abbrev Safe (cfg : SupplierRepoConfig) (base : Rows) (t : Task) :
    Tx → Held Row Nat → SupplierWorld → Prop := (contract cfg base).Safe t

/-- No usage row appears. -/
def UsageKept : (k : Key) → Option (Row k) → Option (Row k) → Prop
  | .usage _ _, v, v' => ∀ r', v' = some r' → ∃ r, v = some r ∧ r.Marks r'
  | _, _, _ => True

theorem UsageKept.refl : UsageKept k v v := by
  cases k with
  | usage day id => exact fun r found => ⟨r, found, .refl r⟩
  | _ => trivial

theorem UsageKept.trans (u v x : Option (Row k)) (first : UsageKept k u v)
    (second : UsageKept k v x) : UsageKept k u x := by
  cases k with
  | usage day id =>
    intro r'' found
    obtain ⟨r', found', marks'⟩ := second r'' found
    obtain ⟨r, found'', marks⟩ := first r' found'
    exact ⟨r, found'', marks.trans marks'⟩
  | _ => trivial

/-- What the writes of a transaction that inserts no usage row do to a row; it
writes only within its scope. -/
structure RowStep (scope : Key → Bool) (k : Key) (v v' : Option (Row k)) : Prop where
  before : RowBefore k v v'
  usage : UsageKept k v v'
  frame : scope k = false → v' = v

theorem RowStep.refl {scope : Key → Bool} (k : Key) (v : Option (Row k)) : RowStep scope k v v :=
  ⟨.refl k v, .refl k v, fun _ => rfl⟩

theorem RowStep.trans {scope : Key → Bool} (k : Key) (u v x : Option (Row k))
    (first : RowStep scope k u v) (second : RowStep scope k v x) : RowStep scope k u x :=
  ⟨.trans k _ _ _ first.before second.before, .trans k _ _ _ first.usage second.usage,
    fun outside => (second.frame outside).trans (first.frame outside)⟩

variable {cfg : SupplierRepoConfig} {base : Rows} {w : SupplierWorld} {ws : Writes Row} {e : Event}

/-- A commit that the ledger accepts. -/
structure Commits (w : SupplierWorld) (ws : Writes Row) (e : Event) : Prop where
  posted : ∀ a, change (share a) w.db ws = posting a e
  grows : Grows w.db (overlay w.db ws)
  usage : ∀ day id r, (overlay w.db ws).lookup (.usage day id) = some r →
    RowOk (w.commit ws [e]) (.usage day id) r
  settlements : ∀ id s, (overlay w.db ws).lookup (.settlement id) = some s →
    w.db.lookup (.settlement id) = some s ∨
      (RowOk (w.commit ws [e]) (.settlement id) s ∧ .balance s.supplierUserID ∈ writtenKeys ws)
  requests : ∀ operator key id, (overlay w.db ws).lookup (.request operator key) = some id →
    w.db.lookup (.request operator key) = some id ∨
      RowOk (w.commit ws [e]) (.request operator key) id
  recorded : e.Recorded (overlay w.db ws)

theorem RowOk.settlement_kept (grows : Grows w.db (overlay w.db ws))
    (ok : RowOk w (.settlement id) s) : RowOk (w.commit ws [e]) (.settlement id) s := by
  obtain ⟨positive, owner, indexed, claims⟩ := ok
  refine ⟨positive, (grows.rows (.balance s.supplierUserID)).1 owner,
    grows.rows (.request _ _) id indexed, fun fixed => ?_⟩
  obtain ⟨key, payee, logged⟩ := claims fixed
  exact ⟨key, payee, List.mem_append_left _ logged⟩

theorem RowOk.request_kept (grows : Grows w.db (overlay w.db ws)) {operator : Int} {key : String}
    (ok : RowOk w (.request operator key) id) :
    RowOk (w.commit ws [e]) (.request operator key) id := by
  obtain ⟨s, found, byOperator, byKey⟩ := ok
  obtain ⟨s', found', before⟩ := grows.rows (.settlement id) s found
  exact ⟨s', found', before.requestedOperator.trans byOperator, before.requestKey.trans byKey⟩

theorem Commits.rowOk (commits : Commits w ws e) (sound : Sound base w) (k : Key) (row : Row k)
    (found : (overlay w.db ws).lookup k = some row) : RowOk (w.commit ws [e]) k row := by
  cases k with
  | usage day id => exact commits.usage day id row found
  | balance uid =>
    have solvent : Solvent (w.db.lookup (.balance uid)) :=
      fun b there => sound.rows (.balance uid) b there
    exact (commits.grows.rows (.balance uid)).2 solvent row found
  | settlement id =>
    rcases commits.settlements id row found with kept | ⟨ok, -⟩
    · exact .settlement_kept commits.grows (sound.rows _ _ kept)
    · exact ok
  | request operator key =>
    rcases commits.requests operator key row found with kept | ok
    · exact .request_kept commits.grows (sound.rows _ _ kept)
    · exact ok
  | _ => trivial

theorem Commits.shielded (commits : Commits w ws e) (k : Key) (free : k ∉ writtenKeys ws) :
    Shielded k w (w.commit ws [e]) := by
  cases k with
  | balance uid =>
    intro id s found owner
    obtain ⟨s', found', before⟩ := commits.grows.rows (.settlement id) s found
    rcases commits.settlements id s' found' with kept | ⟨-, written⟩
    · rw [found] at kept
      cases kept
      exact found'
    · rw [before.supplierUserID, owner] at written
      exact absurd written free
  | _ => trivial

theorem Commits.kept (commits : Commits w ws e) (sound : Sound base w) (others : List Task)
    {h : Held Row Nat} (writes : h.writes = ws) :
    (contract cfg base).Kept others h w (w.commit ws [e]) := by
  subst writes
  refine ⟨⟨?_, commits.rowOk sound, ?_⟩, fun _ _ => commits.grows, commits.shielded⟩
  · exact sound.balanced.commit (fun a => by rw [Books.posted_singleton]; exact commits.posted a)
  intro e' logged
  rcases List.mem_append.mp logged with old | new
  · exact (sound.recorded e' old).mono commits.grows.rows
  · cases List.mem_singleton.mp new
    exact commits.recorded

variable {scope : Key → Bool}

theorem Grows.of_moves (moves : Moves (RowStep scope) w.db ws) : Grows w.db (overlay w.db ws) :=
  ⟨fun k => (moves k).before, fun day id r found _ => (moves (.usage day id)).usage r found⟩

/-- Every usage row has its partition. -/
def Standing (d : Rows) : Prop :=
  ∀ day id r, d.lookup (.usage day id) = some r → (d.lookup (.partition day)).isSome = true

theorem usage_ok (sound : Sound base w) (moves : Moves (RowStep scope) w.db ws)
    (standing : Standing (overlay w.db ws)) (day id : Nat) (r' : UsageRow)
    (found : (overlay w.db ws).lookup (.usage day id) = some r') :
    RowOk (w.commit ws [e]) (.usage day id) r' := by
  obtain ⟨r, found', marks⟩ := (moves (.usage day id)).usage r' found
  obtain ⟨born, serial, -, owned⟩ := sound.rows (.usage day id) r found'
  have fields := marks.same
  refine ⟨?_, (moves (.usageID id)).before day serial, standing day id r' found, ?_⟩
  · rw [fields]
    exact born
  intro credited positive
  have earn : r'.supplierEarnMillis = r.supplierEarnMillis := by rw [fields]
  have supplier : r'.supplierUserID = r.supplierUserID := by rw [fields]
  rw [supplier]
  rcases marks.owner credited with earlier | known
  · exact owned earlier (earn ▸ positive)
  · exact known

/-- The tables of the credit and thaw transactions. -/
def creditScope : Key → Bool
  | .usage _ _ => true
  | .balance _ => true
  | .chunk _ _ => true
  | .reconciliation _ _ => true
  | _ => false

/-- A settlement command locks users and balances, adds payment keys and writes the
named rows. -/
def settleScope (ks : List Key) : Key → Bool
  | .user _ => true
  | .balance _ => true
  | .payment _ => true
  | k => decide (k ∈ ks)

def retireScope : Key → Bool
  | .usage _ _ => true
  | .partition _ => true
  | .reconciliation _ _ => true
  | _ => false

/-- Within a scope that holds neither settlements nor their requests. -/
theorem Commits.ofScope (scope : Key → Bool) (sound : Sound base w)
    (pending : books.Pending (RowStep scope) (posting · e) w.db ws)
    (standing : Standing (overlay w.db ws)) (settlements : ∀ id, scope (.settlement id) = false)
    (requests : ∀ operator key, scope (.request operator key) = false)
    (recorded : e.Recorded (overlay w.db ws)) : Commits w ws e := by
  have frame := fun k => (pending.moves k).frame
  refine ⟨pending.change, .of_moves pending.moves, usage_ok sound pending.moves standing, ?_, ?_,
    recorded⟩
  · exact fun id s found => .inl ((frame (.settlement id) (settlements id)) ▸ found)
  · exact fun operator key id found =>
      .inl ((frame (.request operator key) (requests operator key)) ▸ found)

theorem usage_standing (sound : Sound base w) (moves : Moves (RowStep scope) w.db ws)
    {r : UsageRow} (kept : scope (.partition day) = false)
    (found : (overlay w.db ws).lookup (.usage day id) = some r) :
    ((overlay w.db ws).lookup (.partition day)).isSome = true := by
  obtain ⟨r', found', -⟩ := (moves (.usage day id)).usage r found
  rw [(moves (.partition day)).frame kept]
  exact (sound.rows (.usage day id) r' found').2.2.1

theorem Commits.ofCredit (sound : Sound base w)
    (pending : books.Pending (RowStep creditScope) (posting · e) w.db ws)
    (recorded : e.Recorded (overlay w.db ws)) : Commits w ws e :=
  .ofScope _ sound pending (fun _ _ _ => usage_standing sound pending.moves rfl) (fun _ => rfl)
    (fun _ _ => rfl) recorded

theorem Commits.ofSettle (sound : Sound base w)
    (pending : books.Pending (RowStep scope) (posting · e) w.db ws)
    (partitions : ∀ day, scope (.partition day) = false)
    (settlements : ∀ id s, (overlay w.db ws).lookup (.settlement id) = some s →
      w.db.lookup (.settlement id) = some s ∨
        (RowOk (w.commit ws [e]) (.settlement id) s ∧ .balance s.supplierUserID ∈ writtenKeys ws))
    (requests : ∀ operator key id, (overlay w.db ws).lookup (.request operator key) = some id →
      w.db.lookup (.request operator key) = some id ∨
        RowOk (w.commit ws [e]) (.request operator key) id)
    (recorded : e.Recorded (overlay w.db ws)) : Commits w ws e :=
  ⟨pending.change, .of_moves pending.moves, usage_ok sound pending.moves
    (fun day _ _ => usage_standing sound pending.moves (partitions day)), settlements, requests,
    recorded⟩

end C3Api.Supplier
