import C3Api.Supplier.Ledger

/-!
# The settlement commands keep the ledger

Every command locks its operator, reads the settlement, locks the balance and only
then compares and sets. From the lock on no other transaction can touch the
settlement, so the version that the command checks is the one it read.
-/

namespace C3Api.Supplier

open ReadCommitted List Contract RowStep

variable {cfg : SupplierRepoConfig} {base : Rows} {t : Task} {w w' : SupplierWorld}
variable {h : Held Row Nat}

variable {scope : Key → Bool} {k : Key} {next : Tx} {actor : FundsActor}
  {uid expectedRevision amount : Int} {req : ApplySettlementRequest} {id now : Nat}
  {s s' : SupplierSettlement} {b b' : SupplierBalance} {moved : Account → Int}
  {target : SupplierSettlementStatus}

theorem RowStep.mono {scope' : Key → Bool} (wider : ∀ k, scope' k = false → scope k = false)
    {v v' : Option (Row k)} (step : RowStep scope k v v') : RowStep scope' k v v' :=
  ⟨step.before, step.usage, fun outside => step.frame (wider k outside)⟩

/-- A transaction that has only locked rows. -/
abbrev Locked (w : SupplierWorld) (h : Held Row Nat) : Prop :=
  books.Pending (fun _ v v' => v' = v) (fun _ => 0) w.db h.writes

theorem Locked.empty : Locked w {} := .nil (fun _ _ => rfl)

theorem Locked.later (locked : Locked w h) (later : (contract cfg base).Later t h w w') :
    Locked w' h := Books.Pending.later (fun _ _ => rfl) locked later

theorem access_eq (unguarded : tableLock k = none) (v : Option (Row k)) :
    h.access (system cfg).guard k (some v) = { h with writes := ⟨k, v⟩ :: h.writes } :=
  access_of_unguarded unguarded v

theorem Locked.lock (locked : Locked w h) {row : Row k}
    (found : (overlay w.db h.writes).lookup k = some row) :
    Locked w { h with writes := ⟨k, some row⟩ :: h.writes } := by
  refine Books.Pending.of_moved
    (locked.cons (fun _ _ _ _ first second => second.trans first) found.symm) ?_
  rw [found]
  simp

theorem Locked.pending (locked : Locked w h) :
    books.Pending (RowStep scope) (fun _ => 0) w.db h.writes :=
  ⟨locked.change, fun k => by rw [locked.moves k]; exact .refl k _⟩

variable {e : Event} {stamp : Nat → SupplierSettlement → SupplierSettlement} {reason : String}
  {key : Nat} {payee : SupplierPayeeSnapshot}

/-- A transaction that has only locked rows may log what moves no account. -/
theorem Locked.commits (locked : Locked w h) (sound : Sound base w) (silent : ∀ a, posting a e = 0)
    (recorded : e.Recorded w.db) : Commits w h.writes e := by
  have pending : books.Pending (RowStep (settleScope [])) (posting · e) w.db h.writes :=
    locked.pending.of_moved (fun a => (silent a).symm)
  refine .ofSettle sound pending (fun _ => rfl) ?_ ?_ ?_
  · exact fun id s found => .inl (locked.moves (.settlement id) ▸ found)
  · exact fun operator key id found => .inl (locked.moves (.request operator key) ▸ found)
  · exact recorded.mono (fun k => by rw [locked.moves k]; exact .refl k _)

theorem orAbort_safe {A : Type} {result : Except SupplierError A} {next : A → Tx}
    (followed : ∀ a, result = .ok a → Safe cfg base t (next a) h w) :
    Safe cfg base t (orAbort result next) h w := by
  cases result with
  | error e => trivial
  | ok a => exact followed a rfl

theorem exec_safe {failed : Tx} (onFailure : Safe cfg base t failed h w)
    (followed : Safe cfg base t next h w) : Safe cfg base t (exec failed next) h w :=
  fun _ => safe_ite (fun _ => followed) (fun _ => onFailure)

theorem lockFundsOperator_safe {roles : List Role} (locked : Locked w h)
    (followed : ∀ w' h', Grows w.db w'.db → Locked w' h' → Safe cfg base t next h' w') :
    Safe cfg base t (lockFundsOperator actor roles next) h w := by
  apply safe_selectForUpdate
  · exact fun _ _ => trivial
  · exact fun _ _ => trivial
  intro w' row later found
  refine safe_ite (fun _ => trivial) (fun _ => ?_)
  refine safe_ite (fun _ => trivial) (fun _ => ?_)
  exact followed w' _ later.rely ((locked.later later).lock found)

theorem lockSupplierBalanceRow_safe {next : Bool → Tx} (locked : Locked w h)
    (absent : w.db.lookup (.balance uid) = none → ∀ w' h', Locked w' h' →
      Safe cfg base t (next false) h' w')
    (present : ∀ w' h', Grows w.db w'.db → (contract cfg base).inv w' → Locked w' h' →
      .balance uid ∈ writtenKeys h'.writes → Safe cfg base t (next true) h' w') :
    Safe cfg base t (lockSupplierBalanceRow uid next) h w := by
  intro w' later
  dsimp only
  cases seen : (overlay w'.db h.writes).lookup (.balance uid) with
  | none =>
    refine absent ?_ w' h (locked.later later)
    rw [(locked.later later).moves (.balance uid)] at seen
    cases before : w.db.lookup (.balance uid) with
    | none => rfl
    | some b =>
      have stays := (later.rely.rows (.balance uid)).1 (by rw [before]; rfl)
      rw [seen] at stays
      cases stays
  | some b =>
    intro w'' further
    have still := (further.rely.rows (.balance uid)).1
      (by rw [← (locked.later later).moves (.balance uid), seen]; rfl)
    have whole := later.trans further
    rw [← (locked.later whole).moves (.balance uid)] at still
    obtain ⟨b', newest⟩ := Option.isSome_iff_exists.mp still
    simp only [newest]
    exact present w'' _ whole.rely whole.inv ((locked.later whole).lock newest) mem_cons_self

/-- The settlement under a request key answers every request that matches it. -/
theorem readSettlementByKey_names (sound : Sound base w) (locked : Locked w h)
    (read : readSettlementByKey (overlay w.db h.writes) req.operatorUID req.requestKey = some (id, s))
    (matching : matchSettlement s req = .ok ()) :
    ∃ s, w.db.lookup (.settlement id) = some s ∧ Names s req := by
  obtain ⟨id', indexed, found⟩ := Option.bind_eq_some_iff.mp read
  obtain ⟨s', there, pair⟩ := Option.map_eq_some_iff.mp found
  obtain ⟨rfl, rfl⟩ := Prod.mk.inj pair
  rw [locked.moves] at indexed there
  obtain ⟨s'', found', byOperator, byKey⟩ := sound.rows _ _ indexed
  rw [there] at found'
  cases found'
  unfold matchSettlement at matching
  split at matching
  · cases matching
  rename_i same
  simp only [ne_eq, not_or, not_not] at same
  exact ⟨s', there, byOperator, byKey, same.1, same.2.1, same.2.2⟩

theorem replyByKey_safe {missing : Tx} (locked : Locked w h)
    (unknown : ∀ w', Grows w.db w'.db → Locked w' h → Safe cfg base t missing h w') :
    Safe cfg base t (replyByKey req missing) h w := by
  intro w' later
  have locked' := locked.later later
  dsimp only
  split
  next id s read =>
    refine orAbort_safe (fun _ matching => ?_)
    intro w'' further others _
    have named : (Event.replied id req).Recorded w''.db :=
      names_mono further.rely.rows (readSettlementByKey_names later.inv locked' read matching)
    exact ((locked'.later further).commits further.inv (fun a => by cases a <;> rfl) named).kept
      further.inv others rfl
  · exact unknown w' later.rely locked'

def deducted (req : ApplySettlementRequest) : Account → Int
  | .available uid => if req.supplierUID = uid then -req.amountMillis else 0
  | _ => 0

def requestKeys (id : Nat) (req : ApplySettlementRequest) : List Key :=
  [.settlement id, .request req.operatorUID req.requestKey]

theorem deduct_step (taken : deduct now req.amountMillis b = some b') :
    RowStep (settleScope []) (.balance req.supplierUID) (some b) (some b') ∧
      ∀ a, weight (share a) (.balance req.supplierUID) (some b') -
        weight (share a) (.balance req.supplierUID) (some b) = deducted req a := by
  unfold deduct at taken
  split at taken
  next covered =>
    cases taken
    refine ⟨⟨⟨fun _ => rfl, fun _ b'' same => ?_⟩, trivial, nofun⟩, ?_⟩
    · cases same
      exact sub_nonneg.mpr covered
    · intro a
      cases a <;> simp only [weight_some, share, deducted, sub_self]
      split <;> omega
  · cases taken

/-- The request at its commit: the deducted balance under the two new rows. -/
theorem requested_commits {ws all : Writes Row} {start clock : Nat} (sound : Sound base w)
    (positive : 0 < req.amountMillis)
    (written : all = ⟨.request req.operatorUID req.requestKey, some id⟩ ::
      ⟨.settlement id, some (newSettlement req start clock)⟩ :: ws)
    (pending : books.Pending (RowStep (settleScope (requestKeys id req)))
      (posting · (.requested id req)) w.db all) (locked : .balance req.supplierUID ∈ writtenKeys ws)
    (present : ((overlay w.db ws).lookup (.balance req.supplierUID)).isSome = true) :
    Commits w all (.requested id req) := by
  have inserted : (overlay w.db all).lookup (.settlement id) =
      some (newSettlement req start clock) := by
    rw [written, overlay_cons, lookup_put_of_ne _ (by simp), overlay_cons, lookup_put_self]
  subst written
  refine .ofSettle sound pending (fun _ => rfl) ?_ ?_ ?_
  · intro id' s found
    by_cases same : id' = id
    · subst same
      rw [inserted] at found
      cases found
      refine .inr ⟨⟨positive, ?_, ?_, ?_⟩, by simp [newSettlement, locked]⟩
      · simp only [World.commit, newSettlement]
        rwa [overlay_cons, lookup_put_of_ne _ (by simp), overlay_cons, lookup_put_of_ne _ (by simp)]
      · exact lookup_put_self _ _ _
      · simp [newSettlement]
    · rw [(pending.moves (.settlement id')).frame (by simp [settleScope, requestKeys, same])]
        at found
      exact .inl found
  · intro operator key id' found
    by_cases same : operator = req.operatorUID ∧ key = req.requestKey
    · obtain ⟨rfl, rfl⟩ := same
      rw [overlay_cons, lookup_put_self] at found
      cases found
      exact .inr ⟨newSettlement req start clock, inserted, rfl, rfl⟩
    · rw [(pending.moves (.request operator key)).frame
        (by simpa [settleScope, requestKeys] using same)] at found
      exact .inl found
  · exact ⟨_, inserted, rfl, rfl, rfl, rfl, rfl⟩

theorem RowStep.insert {k : Key} (r : Row k) (before : RowBefore k none (some r))
    (usage : UsageKept k none (some r)) (inside : scope k = true) : RowStep scope k none (some r) :=
  ⟨before, usage, fun outside => (nomatch inside.symm.trans outside)⟩

theorem settleScope_wider (ks : List Key) (k : Key) (outside : settleScope ks k = false) :
    settleScope [] k = false := by
  cases k with
  | user id | balance uid | payment key => cases outside
  | _ => rfl

theorem applySettlementTx_safe {conflict : Tx} (positive : 0 < req.amountMillis)
    (locked : Locked w h)
    (recovers : ∀ h' w', (contract cfg base).inv w' → Safe cfg base t conflict h' w') :
    Safe cfg base t (applySettlementTx req now conflict) h w := by
  refine replyByKey_safe locked (fun w₁ _ locked₁ => ?_)
  apply safe_updateWhere
  · exact fun w₂ later => replyByKey_safe (locked₁.later later) (fun _ _ _ => trivial)
  · intro w₂ later
    exact replyByKey_safe (locked₁.later later) (fun _ _ _ => trivial)
  intro w₂ b b' later₂ found taken
  rw [access_eq rfl]
  obtain ⟨step, amounts⟩ := deduct_step taken
  have pending₂ : books.Pending (RowStep (settleScope [])) (deducted req) w₂.db
      (⟨.balance req.supplierUID, some b'⟩ :: h.writes) :=
    ((locked₁.later later₂).pending.cons trans (found ▸ step)).of_moved
      (fun a => by rw [found, zero_add]; exact amounts a)
  intro w₃ later₃ w₄ later₄
  generalize periodStart _ _ _ = start
  generalize w₄.clock = clock
  apply safe_insertSerial trivial
  intro id w₅ later₅ fresh
  have pending₅ := (pending₂.later refl ((later₃.trans later₄).trans later₅)).mono
    (fun k v v' step => step.mono (settleScope_wider (requestKeys id req)))
  have inserted := pending₅.cons trans (fresh ▸
    insert (k := .settlement id) (newSettlement req start clock)
      (fun _ found => (nomatch found)) trivial (by simp [settleScope, requestKeys]))
  apply safe_insertRow
  · intro w₆ later₆
    exact recovers _ w₆ later₆.inv
  intro w₆ later₆ unused
  have indexed := (inserted.later refl later₆).cons trans
    (unused ▸ insert (k := .request ..) id nofun trivial (by simp [settleScope, requestKeys]))
  intro w₇ later₇ others _
  have pending₇ := indexed.later refl later₇
  refine (requested_commits later₇.inv positive rfl (pending₇.of_moved ?_) ?_ ?_).kept later₇.inv
    others rfl
  · intro a
    rw [fresh, unused]
    cases a <;> simp [books, deducted, share, posting, newSettlement]
  · exact mem_cons_self
  · rw [overlay_cons, lookup_put_self]
    rfl

theorem applySettlementRequest_safe {mode : SettlementRequestMode}
    (positive : 0 < req.amountMillis) :
    Safe cfg base t (applySettlementRequest mode req actor) {} w := by
  have recovers : ∀ h' w', (contract cfg base).inv w' →
      Safe cfg base t (recoverSettlementByKey req) h' w' :=
    fun _ _ _ _ _ => replyByKey_safe .empty (fun _ _ _ => trivial)
  refine safe_ite (fun _ => trivial) (fun _ => ?_)
  intro w' _
  refine lockFundsOperator_safe .empty (fun w'' h'' _ locked => ?_)
  refine safe_ite (fun _ => ?_) (fun _ => applySettlementTx_safe positive locked recovers)
  apply lockSupplierBalanceRow_safe locked
  · exact fun _ _ _ _ => trivial
  · exact fun _ _ _ _ locked' _ => applySettlementTx_safe positive locked' recovers

/-- A settlement that was read under the lock of its balance, with nothing written yet. -/
structure Owned (id : Nat) (s : SupplierSettlement) (w : SupplierWorld) (h : Held Row Nat) : Prop where
  locked : Locked w h
  read : w.db.lookup (.settlement id) = some s
  held : .balance s.supplierUserID ∈ writtenKeys h.writes

/-- The lock on the balance keeps the version that was read. -/
theorem Owned.later (owned : Owned id s w h) (later : (contract cfg base).Later t h w w') :
    Owned id s w' h :=
  ⟨owned.locked.later later, later.shielded _ owned.held id s owned.read rfl, owned.held⟩

theorem withFundsTx_safe {check : Int → Except SupplierError Unit} {body : Nat → Int → Int → Tx}
    (command : ∀ now w h s, (contract cfg base).inv w → Owned id s w h →
      Safe cfg base t (body now s.supplierUserID s.amountMillis) h w) :
    Safe cfg base t (withFundsTx actor id check body) {} w := by
  intro w₁ _
  refine lockFundsOperator_safe .empty (fun w₂ h₂ _ locked => ?_)
  intro w₃ later
  have locked₃ := locked.later later
  dsimp only
  cases read : (overlay w₃.db h₂.writes).lookup (.settlement id) with
  | none => trivial
  | some s =>
    refine orAbort_safe (fun _ _ => ?_)
    rw [locked₃.moves] at read
    obtain ⟨-, owner, -⟩ := later.inv.rows (.settlement id) s read
    apply lockSupplierBalanceRow_safe locked₃
    · intro missing
      rw [missing] at owner
      cases owner
    · intro w₄ h₄ grows inv locked₄ written
      obtain ⟨s', read', before⟩ := grows.rows (.settlement id) s read
      rw [← before.supplierUserID] at written ⊢
      rw [← before.amountMillis]
      exact command _ w₄ h₄ s' inv ⟨locked₄, read', written⟩

/-- A settlement compared and set under the lock of its balance; `moved` is what the
transaction has moved so far. -/
structure Stepped (id : Nat) (s s' : SupplierSettlement) (moved : Account → Int)
    (w : SupplierWorld) (h : Held Row Nat) : Prop where
  pending : books.Pending (RowStep (settleScope [.settlement id])) moved w.db h.writes
  read : w.db.lookup (.settlement id) = some s
  key : .settlement id ∈ writtenKeys h.writes
  written : (overlay w.db h.writes).lookup (.settlement id) = some s'
  held : .balance s.supplierUserID ∈ writtenKeys h.writes

theorem Stepped.later (stepped : Stepped id s s' moved w h)
    (later : (contract cfg base).Later t h w w') : Stepped id s s' moved w' h :=
  ⟨stepped.pending.later refl later, (later.written stepped.key).trans stepped.read,
    stepped.key, (lookup_overlay_of_mem _ _ stepped.key).trans stepped.written, stepped.held⟩

/-- What a move adds to the accounts of its settlement. -/
def settlementMoved (id : Nat) (s s' : SupplierSettlement) (a : Account) : Int :=
  share a (.settlement id) s' - share a (.settlement id) s

theorem compareAndSet_safe {sources : List SupplierSettlementStatus} (owned : Owned id s w h)
    (before : ∀ clock, s.Before (stamp clock s))
    (followed : ∀ clock w' h', s.status ∈ sources →
      Stepped id s { stamp clock s with status := target, revision := s.revision + 1 }
        (settlementMoved id s { stamp clock s with status := target, revision := s.revision + 1 })
        w' h' → Safe cfg base t next h' w') :
    Safe cfg base t
      (compareAndSet id sources target expectedRevision stamp reason next) h w := by
  intro w₁ later₁
  apply safe_updateWhere
  · exact fun _ _ => trivial
  · exact fun _ _ => trivial
  intro w₂ row row' later₂ newest matching
  obtain ⟨locked₂, same, held⟩ := owned.later (later₁.trans later₂)
  rw [locked₂.moves, same] at newest
  cases newest
  split at matching
  next current =>
    cases matching
    have fields := before w₁.clock
    have step : RowStep (settleScope [.settlement id]) (.settlement id) (some s)
        (some { stamp w₁.clock s with status := target, revision := s.revision + 1 }) := by
      refine ⟨fun s₀ found => ⟨_, rfl, ?_⟩, trivial, fun outside => by simp [settleScope] at outside⟩
      cases found
      exact ⟨fields.supplierUserID, fields.kind, fields.amountMillis, fields.requestKey,
        fields.requestedOperator, fields.paymentKey, fields.payeeSnapshot⟩
    have unread : (overlay w₂.db h.writes).lookup (.settlement id) = some s := by
      rw [locked₂.moves, same]
    refine followed w₁.clock w₂ _ current.1 ⟨?_, same, mem_cons_self, ?_, mem_cons_of_mem _ held⟩
    · refine (locked₂.pending.cons trans (unread ▸ step)).of_moved (fun a => ?_)
      rw [unread, zero_add]
      rfl
    · exact lookup_put_self _ _ _
  · cases matching

theorem Stepped.commits (stepped : Stepped id s s' moved w h) (sound : Sound base w)
    (posted : ∀ a, moved a = posting a e)
    (claims : s'.paymentKey.isSome = true ∨ s'.payeeSnapshot.isSome = true →
      ∃ key payee, Event.claimed id key payee ∈ w.log ++ [e])
    (recorded : e.Recorded (overlay w.db h.writes)) : Commits w h.writes e := by
  have grows : Grows w.db (overlay w.db h.writes) := .of_moves stepped.pending.moves
  refine .ofSettle sound (stepped.pending.of_moved posted) (fun _ => rfl) ?_ ?_ recorded
  · intro id' s₀ found
    by_cases same : id' = id
    · subst same
      rw [stepped.written] at found
      cases found
      obtain ⟨s₁, found₁, before⟩ := grows.rows (.settlement id') s stepped.read
      rw [stepped.written] at found₁
      cases found₁
      have kept : RowOk (w.commit h.writes [e]) (.settlement id') s :=
        .settlement_kept grows (sound.rows _ _ stepped.read)
      obtain ⟨positive, owner, indexed, -⟩ := kept
      rw [← before.amountMillis] at positive
      rw [← before.supplierUserID] at owner
      rw [← before.requestedOperator, ← before.requestKey] at indexed
      exact .inr ⟨⟨positive, owner, indexed, claims⟩, before.supplierUserID ▸ stepped.held⟩
    · rw [(stepped.pending.moves (.settlement id')).frame (by simp [settleScope, same])] at found
      exact .inl found
  · intro operator key id' found
    rw [(stepped.pending.moves (.request operator key)).frame rfl] at found
    exact .inl found

def fundsMoved (supplierUID amount : Int) (target : SupplierSettlementStatus) : Account → Int
  | .available uid => if supplierUID = uid ∧ target = .rejected then amount else 0
  | .lifetimePaid uid => if supplierUID = uid ∧ target = .paid then amount else 0
  | _ => 0

theorem settlement_posting {i : Nat} (before : s.Before s')
    (pendingRow : s.status ≠ .rejected ∧ s.status ≠ .paid) (revision : s'.revision = s.revision + 1)
    (a : Account) :
    settlementMoved i s s' a + fundsMoved s.supplierUserID s.amountMillis s'.status a =
      movePosting i s.supplierUserID s.amountMillis s'.status a := by
  obtain ⟨live, unpaid⟩ := pendingRow
  cases a <;> simp only [settlementMoved, share, fundsMoved, movePosting, before.supplierUserID,
    before.amountMillis, revision, live, unpaid, and_false, and_true, ne_eq, not_false_eq_true,
    if_false, sub_zero, sub_self, zero_add, add_zero]
  case live uid => split <;> split <;> simp_all
  case revision j => split <;> simp

theorem fundsMoved_eq_zero {supplierUID : Int} (live : target ≠ .rejected) (unpaid : target ≠ .paid)
    (a : Account) : fundsMoved supplierUID amount target a = 0 := by
  cases a <;> simp [fundsMoved, live, unpaid]

/-- A command that changes no payment key commits what its event says. -/
theorem Stepped.moved_kept (stepped : Stepped id s s' moved w h) (sound : Sound base w)
    (kept : s'.fixed = s.fixed)
    (posted : ∀ a, moved a = movePosting id s.supplierUserID s.amountMillis s'.status a)
    (others : List Task) :
    (contract cfg base).Kept others h w
      (w.commit h.writes [.moved id s.supplierUserID s.amountMillis s'.status]) := by
  have commits : Commits w h.writes (.moved id s.supplierUserID s.amountMillis s'.status) := by
    refine stepped.commits sound posted ?_ trivial
    intro fixed
    simp only [SupplierSettlement.fixed, Prod.mk.injEq] at kept
    rw [kept.2.2.2.2.2.1, kept.2.2.2.2.2.2] at fixed
    obtain ⟨key, payee', logged⟩ := (sound.rows (.settlement id) s stepped.read).2.2.2 fixed
    exact ⟨key, payee', mem_append_left _ logged⟩
  exact commits.kept sound others rfl

/-- The balance of the settlement changes after the settlement itself. -/
theorem Stepped.pay (stepped : Stepped id s s' moved w h)
    (found : (overlay w.db h.writes).lookup (.balance s.supplierUserID) = some b)
    (solvent : 0 ≤ b.available → 0 ≤ b'.available) :
    Stepped id s s'
      (fun a => moved a + (share a (.balance s.supplierUserID) b' -
        share a (.balance s.supplierUserID) b)) w
      { h with writes := ⟨.balance s.supplierUserID, some b'⟩ :: h.writes } := by
  have step : RowStep (settleScope [.settlement id]) (.balance s.supplierUserID) (some b)
      (some b') := by
    refine ⟨⟨fun _ => rfl, fun before b'' same => ?_⟩, trivial, nofun⟩
    cases same
    exact solvent (before b rfl)
  refine ⟨?_, stepped.read, mem_cons_of_mem _ stepped.key, ?_, mem_cons_self⟩
  · refine (stepped.pending.cons trans (found ▸ step)).of_moved (fun a => ?_)
    rw [found]
    rfl
  · rw [overlay_cons, lookup_put_of_ne _ (by simp)]
    exact stepped.written

/-- The part that approval and a confirmed failure share: no money moves. -/
theorem compareAndSet_moved_safe {source : SupplierSettlementStatus} (owned : Owned id s w h)
    (kept : ∀ clock, (stamp clock s).fixed = s.fixed)
    (unsettled : source ≠ .rejected ∧ source ≠ .paid) (live : target ≠ .rejected)
    (unpaid : target ≠ .paid) :
    Safe cfg base t
      (compareAndSet id [source] target expectedRevision stamp reason
        (.commit [.moved id s.supplierUserID s.amountMillis target])) h w := by
  refine compareAndSet_safe owned (fun clock => .of_kept (kept clock))
    (fun clock w₁ h₁ matched stepped => ?_)
  intro w₂ later others _
  have status : s.status = source := mem_singleton.mp matched
  refine (stepped.later later).moved_kept later.inv (kept clock) (fun a => ?_) others
  have moved : s.Before { stamp clock s with status := target, revision := s.revision + 1 } :=
    .of_kept (kept clock)
  rw [← settlement_posting moved (status ▸ unsettled) rfl a, fundsMoved_eq_zero live unpaid, add_zero]

theorem approveSettlement_safe :
    Safe cfg base t (approveSettlement id expectedRevision actor) {} w := by
  refine withFundsTx_safe (fun now w h s _ owned => ?_)
  exact compareAndSet_moved_safe owned (fun _ => rfl) (by decide) (by decide) (by decide)

theorem confirmFailedSettlement_safe {confirmation : SupplierPayoutFailureConfirmation} :
    Safe cfg base t (confirmFailedSettlement id expectedRevision confirmation actor) {} w := by
  refine orAbort_safe (fun record _ => ?_)
  refine withFundsTx_safe (fun now w h s _ owned => ?_)
  exact compareAndSet_moved_safe owned (fun _ => rfl) (by decide) (by decide) (by decide)

/-- The part that rejection and payment share: the balance follows the settlement. -/
theorem updateBalance_safe {set : SupplierBalance → SupplierBalance}
    {next : Option SupplierBalance → Tx} (stepped : Stepped id s s' (settlementMoved id s s') w h)
    (kept : s'.fixed = s.fixed) (unsettled : s.status ≠ .rejected ∧ s.status ≠ .paid)
    (revision : s'.revision = s.revision + 1)
    (solvent : ∀ b, 0 ≤ b.available → 0 ≤ (set b).available)
    (paid : ∀ b a, share a (.balance s.supplierUserID) (set b) -
      share a (.balance s.supplierUserID) b =
        fundsMoved s.supplierUserID s.amountMillis s'.status a)
    (missing : ∀ h' w', Safe cfg base t (next none) h' w')
    (commits : ∀ b, next (some b) = .commit [.moved id s.supplierUserID s.amountMillis s'.status]) :
    Safe cfg base t (.updateWhere (.balance s.supplierUserID) (some ∘ set) next) h w := by
  apply safe_updateWhere
  · exact fun w' _ => missing _ w'
  · exact fun w' _ => missing _ w'
  rintro w₁ b _ later found ⟨⟩
  rw [access_eq rfl, commits]
  have funded := (stepped.later later).pay found (solvent b)
  intro w₂ later₂ others _
  refine (funded.later later₂).moved_kept later₂.inv kept (fun a => ?_) others
  rw [paid]
  exact settlement_posting (.of_kept kept) unsettled revision a

theorem rejectSettlement_safe {reason : Option String} :
    Safe cfg base t (rejectSettlement id expectedRevision reason actor) {} w := by
  refine withFundsTx_safe (fun now w h s inv owned => ?_)
  have positive : 0 < s.amountMillis := (inv.rows (.settlement id) s owned.read).1
  refine compareAndSet_safe owned (fun _ => .of_kept rfl) (fun clock w₁ h₁ matched stepped => ?_)
  have unsettled : s.status ≠ .rejected ∧ s.status ≠ .paid := by
    rcases mem_cons.mp matched with status | rest
    · rw [status]
      decide
    · rw [mem_singleton.mp rest]
      decide
  refine updateBalance_safe stepped rfl unsettled rfl ?_ ?_ (fun _ _ => trivial) (fun _ => rfl)
  · exact fun b solvent => add_nonneg solvent positive.le
  · intro b a
    cases a <;> simp only [share, fundsMoved, sub_self, and_true, reduceCtorEq, and_false, if_false]
    split <;> simp

theorem paidSettlement_safe {externalRef : String} :
    Safe cfg base t (paidSettlement id expectedRevision externalRef actor) {} w := by
  refine orAbort_safe (fun ref _ => ?_)
  refine withFundsTx_safe (fun now w h s _ owned => ?_)
  refine compareAndSet_safe owned (fun _ => .of_kept rfl) (fun clock w₁ h₁ matched stepped => ?_)
  have status : s.status = .paying := mem_singleton.mp matched
  refine updateBalance_safe stepped rfl (by rw [status]; decide) rfl ?_ ?_ (fun _ _ => trivial)
    (fun _ => rfl)
  · exact fun b solvent => solvent
  · intro b a
    cases a <;> simp only [share, fundsMoved, sub_self, and_true, reduceCtorEq, and_false, if_false]
    split <;> simp

theorem movePosting_paying (id : Nat) (supplierUID amount : Int) (a : Account) :
    movePosting id supplierUID amount .paying a = movePosting id 0 0 .paying a := by
  cases a <;> simp [movePosting]

/-- The payment key is added to its index. -/
theorem Stepped.index (stepped : Stepped id s s' moved w h)
    (unused : (overlay w.db h.writes).lookup (.payment key) = none) :
    Stepped id s s' moved w { h with writes := ⟨.payment key, some id⟩ :: h.writes } := by
  have step : RowStep (settleScope [.settlement id]) (.payment key) none (some id) :=
    ⟨trivial, trivial, nofun⟩
  refine ⟨?_, stepped.read, mem_cons_of_mem _ stepped.key, ?_, mem_cons_of_mem _ stepped.held⟩
  · refine (stepped.pending.cons trans (unused ▸ step)).of_moved (fun a => ?_)
    rw [unused]
    cases a <;> simp [books, share]
  · rw [overlay_cons, lookup_put_of_ne _ (by simp)]
    exact stepped.written

theorem Stepped.claimed_safe (stepped : Stepped id s s' (settlementMoved id s s') w h)
    (before : s.Before s') (unsettled : s.status ≠ .rejected ∧ s.status ≠ .paid)
    (revision : s'.revision = s.revision + 1) (status : s'.status = .paying)
    (keyed : s'.paymentKey = some key) (payed : s'.payeeSnapshot = some payee) :
    Safe cfg base t (.commit [.claimed id key payee]) h w := by
  intro w' later others _
  have posted : ∀ a, settlementMoved id s s' a = posting a (.claimed id key payee) := by
    intro a
    have moved := settlement_posting (i := id) before unsettled revision a
    rw [status, fundsMoved_eq_zero (by decide) (by decide), add_zero, movePosting_paying] at moved
    exact moved
  have now := stepped.later later
  have commits : Commits w' h.writes (.claimed id key payee) :=
    now.commits later.inv posted (fun _ => ⟨key, payee, mem_append_right _ (mem_singleton.mpr rfl)⟩)
      ⟨s', now.written, keyed, payed⟩
  exact commits.kept later.inv others rfl

theorem claimLocked_safe {snapshot : SupplierPayeeSnapshot} {evidence : Evidence} {fresh : Nat}
    (owned : Owned id s w h) :
    Safe cfg base t (claimLocked cfg id expectedRevision snapshot evidence actor s fresh) h w := by
  refine safe_ite (fun _ => trivial) (fun agreed => ?_)
  intro w₁ later₁ w₂ later₂
  refine orAbort_safe (fun _ _ => orAbort_safe (fun review _ => ?_))
  -- an earlier claim has fixed the same key, and the check above the same payee
  have keyed : ∀ key, s.paymentKey = some key → some (s.paymentKey.getD fresh) = some key := by
    intro key found
    rw [found]
    rfl
  have payed : ∀ payee, s.payeeSnapshot = some payee → some snapshot = some payee := by
    intro payee found
    rw [found] at agreed
    by_contra different
    exact agreed ⟨by simp, fun same => different same.symm⟩
  refine compareAndSet_safe (owned.later (later₁.trans later₂))
    (fun _ => ⟨rfl, rfl, rfl, rfl, rfl, keyed, payed⟩) (fun clock w₃ h₃ matched stepped => ?_)
  have status : s.status = .approved := mem_singleton.mp matched
  have unsettled : s.status ≠ .rejected ∧ s.status ≠ .paid := by
    rw [status]
    decide
  unfold indexPayment
  split
  · exact stepped.claimed_safe ⟨rfl, rfl, rfl, rfl, rfl, keyed, payed⟩ unsettled rfl rfl rfl rfl
  apply safe_insertRow
  · exact fun _ _ => trivial
  intro w₄ later₄ unused
  exact ((stepped.later later₄).index unused).claimed_safe
    ⟨rfl, rfl, rfl, rfl, rfl, keyed, payed⟩ unsettled rfl rfl rfl rfl

theorem claimSettlement_safe {amountMillis : Int} {risk : SupplierRiskEvidence} :
    Safe cfg base t
      (claimSettlement cfg id expectedRevision amountMillis payee risk actor) {} w := by
  refine orAbort_safe (fun cmd _ => orAbort_safe (fun snapshot _ => ?_))
  refine withFundsTx_safe (fun now w h s inv owned => ?_)
  intro w₁ later
  have owned₁ := owned.later later
  dsimp only
  rw [owned₁.locked.moves (.settlement id), owned₁.read]
  exact fun fresh => claimLocked_safe owned₁

end C3Api.Supplier
