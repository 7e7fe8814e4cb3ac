import C3Api.Supplier.RetireSafe

/-!
# What holds of every run of the supplier ledger

Every task keeps the ledger, so the books balance and every record stays true in
every reachable state. The statements about money, settlements and retention are
read off from there.
-/

namespace C3Api.Supplier

open ReadCommitted List Option UIDCredit Books SupplierBalance

variable {cfg : SupplierRepoConfig} {base : Rows}

theorem task_safe (t : Task) (w : SupplierWorld) : Safe cfg base t (t.code cfg) {} w := by
  cases t with
  | insertBatch logs => exact insertBatch_safe
  | markBilledBulk ids => exact markBilledBulk_safe
  | consumeBatch limit => exact consumeBatch_safe
  | thawDueChunks limit => exact thawWithRetry_safe maxAttempts
  | releaseFrozenNoWait limit => exact releaseFrozenNoWait_safe
  | patchSupplierBalance uid p => exact patchSupplierBalance_safe
  | applySettlement req actor | adminApplySettlement req actor =>
    refine Contract.safe_ite (fun _ => trivial) (fun valid => ?_)
    exact applySettlementRequest_safe (not_le.mp (fun free => valid (.inl free)))
  | approveSettlement id revision actor => exact approveSettlement_safe
  | rejectSettlement id revision reason actor => exact rejectSettlement_safe
  | claimSettlement id revision amount payee risk actor => exact claimSettlement_safe
  | confirmFailedSettlement id revision confirmation actor => exact confirmFailedSettlement_safe
  | paidSettlement id revision externalRef actor => exact paidSettlement_safe
  | retireUsageLogPartition day revision => exact retireOneUsageLogPartition_safe

/-- A ledger on which nothing has happened: users and partitions only. -/
structure Initial (σ : SupplierState) : Prop where
  idle : σ.sessions = []
  fresh : σ.world.log = []
  empty : ∀ k row, σ.world.db.lookup k = some row →
    (∃ id, k = .user id) ∨ ∃ day, k = .partition day

def sampleState : SupplierState :=
  let users : Rows := (∅ : Rows).insert (.user 1) ({ role := .platformAdmin } : User)
  { world := { db := users.insert (.partition 0) () } }

theorem sampleState_initial : Initial sampleState := by
  refine ⟨rfl, rfl, fun k row found => ?_⟩
  by_cases first : k = .partition 0
  · exact .inr ⟨0, first⟩
  by_cases second : k = .user 1
  · exact .inl ⟨1, second⟩
  simp only [sampleState] at found
  rw [AList.lookup_insert_ne first, AList.lookup_insert_ne second] at found
  cases found

def sampleInsert : List (Label Task) :=
  .start (.insertBatch [({ ready := true, uid := 7, bp := 10000 }, { cost := 10, userID := 3 }, 5)]) ::
    replicate 6 (.act 0 0)

variable {σ₀ σ σ' : SupplierState} {w : SupplierWorld}

theorem quiet_tick (w : SupplierWorld) (n : Nat) (sound : (contract cfg base).inv w) :
    (contract cfg base).Quiet w (w.tick n) := by
  refine ⟨⟨sound.balanced, fun k row found => ?_, sound.recorded⟩, fun _ => .refl _, fun k => ?_⟩
  · have ok := sound.rows k row found
    cases k <;> exact ok
  · cases k <;> first | exact fun _ _ found _ => found | trivial

theorem Initial.sound (initial : Initial σ₀) : Sound σ₀.world.db σ₀.world := by
  refine ⟨fun a => ?_, fun k row found => ?_, ?_⟩
  · rw [initial.fresh]
    exact (add_zero _).symm
  · rcases initial.empty k row found with ⟨id, rfl⟩ | ⟨day, rfl⟩ <;> trivial
  · rw [initial.fresh]
    exact nofun

section

variable (initial : Initial σ₀) (reached : Reachable (system cfg) (fun _ _ _ => True) σ₀ σ)

include initial reached

theorem holds_of_initial : (contract cfg σ₀.world.db).Holds σ :=
  Contract.holds_of_reachable quiet_tick (fun t w _ => task_safe t w) initial.idle initial.sound
    reached

theorem grows_of_reachable (later : Reachable (system cfg) (fun _ _ _ => True) σ σ') :
    Grows σ.world.db σ'.world.db :=
  (holds_of_initial initial reached).rely_of_reachable quiet_tick (fun t w _ => task_safe t w)
    (fun _ _ _ _ _ => trivial) later (.thawDueChunks 0)

end

variable {a : Account}

/-- Every account but the count of partitions opens at nothing. -/
theorem Initial.opening (initial : Initial σ₀) (used : ∀ day, a ≠ .partitions day) :
    tally (share a) σ₀.world.db = 0 := by
  apply tally_eq_zero
  intro k row found
  rcases initial.empty k row found with ⟨id, rfl⟩ | ⟨day, rfl⟩
  · rfl
  cases a with
  | partitions d => exact absurd rfl (used d)
  | _ => rfl

/-- A sound ledger with books that open at nothing. -/
structure Audited (base : Rows) (w : SupplierWorld) : Prop extends Sound base w where
  posted (a : Account) : (∀ day, a ≠ .partitions day) → tally (share a) w.db = books.posted a w.log

theorem Initial.audited (initial : Initial σ₀)
    (reached : Reachable (system cfg) (fun _ _ _ => True) σ₀ σ) : Audited σ₀.world.db σ.world := by
  have sound := (holds_of_initial initial reached).inv
  refine ⟨sound, fun a used => (sound.balanced a).trans ?_⟩
  rw [show books.share = share from rfl, initial.opening used, zero_add]

section

variable (d : Rows) (uid : Int)

def balanceOf (d : Rows) (uid : Int) : SupplierBalance :=
  (d.lookup (.balance uid)).getD ({} : SupplierBalance)

/-- The only row that has a share in the account, where there is one. -/
def Account.holder : Account → Option Key
  | .available uid | .lifetimeCredited uid | .lifetimePaid uid => some (.balance uid)
  | .revision id | .rejections id | .payouts id => some (.settlement id)
  | .reconciled _ uid day => some (.reconciliation uid day)
  | .partitions day => some (.partition day)
  | .requests operator key => some (.request operator key)
  | _ => none

theorem tally_holder {k : Key} (held : a.holder = some k) (d : Rows) :
    tally (share a) d = weight (share a) k (d.lookup k) := by
  refine tally_single _ _ _ fun k' row _ different => ?_
  cases a <;> cases held <;> cases k' <;>
    first | rfl | exact if_neg (fun same => different (by simp [same]))

theorem tally_balance {uid : Int} (amount : SupplierBalance → Int) (zero : amount {} = 0)
    (held : a.holder = some (.balance uid)) (shares : ∀ b, share a (.balance uid) b = amount b)
    (d : Rows) : tally (share a) d = amount (balanceOf d uid) := by
  rw [tally_holder held, balanceOf]
  cases d.lookup (.balance uid) with
  | none => exact zero.symm
  | some b => exact shares b

theorem tally_available : tally (share (.available uid)) d = (balanceOf d uid).available :=
  tally_balance available rfl rfl (fun _ => by simp [share]) d

theorem tally_lifetimeCredited :
    tally (share (.lifetimeCredited uid)) d = (balanceOf d uid).lifetimeCredited :=
  tally_balance lifetimeCredited rfl rfl (fun _ => by simp [share]) d

theorem tally_lifetimePaid : tally (share (.lifetimePaid uid)) d = (balanceOf d uid).lifetimePaid :=
  tally_balance lifetimePaid rfl rfl (fun _ => by simp [share]) d

end

theorem totalOf_earn (totals : List UIDCredit) (uid : Int) :
    totalOf earn totals uid = totalOf toAvailable totals uid + totalOf toFrozen totals uid := by
  unfold totalOf
  rw [← sum_map_add]
  congr 1
  apply map_congr_left
  intro c _
  by_cases same : c.uid = uid
  · simp only [if_pos same]
    exact c.balanced.symm
  · simp only [if_neg same, add_zero]

/-- What an event adds to the lifetime of a supplier it leaves available, frozen or
in a settlement. -/
theorem Event.Recorded.conserves {d : Rows} {e : Event} (recorded : e.Recorded d) (uid : Int) :
    posting (.lifetimeCredited uid) e =
      posting (.available uid) e + posting (.frozen uid) e + posting (.live uid) e := by
  cases e with
  | credited rows totals =>
    show earnedBy rows uid = totalOf toAvailable totals uid + totalOf toFrozen totals uid + 0
    rw [← recorded uid, totalOf_earn, add_zero]
  | thawed deltas => exact (by ring : (0 : Int) = deltaOf deltas uid + -deltaOf deltas uid + 0)
  | requested id req =>
    simp only [posting]
    split <;> ring
  | moved id supplierUID amount target =>
    simp only [posting, movePosting]
    split <;> ring
  | claimed id key payee => simp [posting, movePosting]
  | _ => rfl

theorem Audited.lifetime (sound : Audited base w) (uid : Int) :
    (balanceOf w.db uid).lifetimeCredited = (balanceOf w.db uid).available +
      tally (share (.frozen uid)) w.db + tally (share (.live uid)) w.db := by
  rw [← tally_lifetimeCredited, ← tally_available, sound.posted (.lifetimeCredited uid) nofun,
    sound.posted (.available uid) nofun,
    sound.posted (.frozen uid) nofun, sound.posted (.live uid) nofun]
  unfold Books.posted
  rw [← sum_map_add, ← sum_map_add]
  congr 1
  exact map_congr_left (fun e member => (sound.recorded e member).conserves uid)

theorem Audited.paid (sound : Audited base w) (uid : Int) :
    (balanceOf w.db uid).lifetimePaid = tally (share (.settledPaid uid)) w.db := by
  rw [← tally_lifetimePaid, sound.posted (.lifetimePaid uid) nofun,
    sound.posted (.settledPaid uid) nofun]
  exact congrArg sum (map_congr_left (fun e _ => by cases e <;> rfl))

theorem Sound.solvent (sound : Sound base w) (uid : Int) : 0 ≤ (balanceOf w.db uid).available := by
  unfold balanceOf
  cases found : w.db.lookup (.balance uid) with
  | none => exact le_refl 0
  | some b => exact sound.rows (.balance uid) b found

def creditsOf (id : Nat) : Event → Int
  | .credited rows _ => (rows.map fun b => if b.id = id then 1 else 0).sum
  | _ => 0

def timesCredited (log : List Event) (id : Nat) : Int := (log.map (creditsOf id)).sum

theorem Audited.timesCredited (sound : Audited base w) {day id : Nat} {r : UsageRow}
    (found : w.db.lookup (.usage day id) = some r)
    (positive : 0 < r.supplierEarnMillis) :
    timesCredited w.log id = if r.supplierCredited then 1 else 0 := by
  obtain ⟨-, serial, standing, -⟩ := sound.rows (.usage day id) r found
  have posted : books.posted (.credits id) w.log = Supplier.timesCredited w.log id := by
    unfold Books.posted Supplier.timesCredited
    congr 1
    apply map_congr_left
    intro e member
    have recorded := sound.recorded e member
    cases e with
    | dropped day' rows =>
      -- a dropped row has lost its partition, this one has not
      obtain ⟨gone, accounted⟩ := recorded
      show -(rows.map _).sum = (0 : Int)
      rw [neg_eq_zero]
      refine sum_eq_zero (fun n listed => ?_)
      obtain ⟨x, there, rfl⟩ := mem_map.mp listed
      refine if_neg (fun both => ?_)
      have taken := (accounted x there).1
      rw [both.1, serial] at taken
      rw [some.inj taken, gone] at standing
      cases standing
    | _ => rfl
  rw [← posted, ← sound.posted (.credits id) nofun, tally_single _ _ (.usage day id), found]
  · simp [share, positive]
  intro k row there different
  cases k with
  | usage day' id' =>
    refine if_neg (fun all => different ?_)
    have serial' := (sound.rows (.usage day' id') row there).2.1
    rw [all.1, serial] at serial'
    rw [all.1, some.inj serial']
  | _ => rfl

def droppedSum (m : Measure) (uid : Int) (day : Nat) : Event → Int
  | .dropped _ rows => sourceSum (rows.map Prod.snd) m (uid, day)
  | _ => 0

theorem sourceSum_eq (rows : List UsageRow) (m : Measure) (key : Int × Nat) :
    sourceSum rows m key =
      (rows.map fun r => if sourceKey r = some key then r.measure m else 0).sum := by
  simp [sourceSum, sum_map_ite]

theorem reconciled_posting (m : Measure) (uid : Int) (day : Nat) (e : Event) :
    posting (.reconciled m uid day) e = posting (.source m uid day) e + droppedSum m uid day e := by
  cases e with
  | dropped d rows =>
    simp only [posting, droppedSum, sourceSum_eq, List.map_map]
    exact (neg_add_cancel _).symm
  | credited rows totals => exact (add_zero _).symm
  | _ => rfl

/-- What was credited for the rows of a day is in the tables or was dropped with them. -/
theorem Audited.sources (sound : Audited base w) (m : Measure) (uid : Int) (day : Nat) :
    (w.log.map (posting (.reconciled m uid day))).sum =
      tally (share (.source m uid day)) w.db + (w.log.map (droppedSum m uid day)).sum := by
  rw [sound.posted (.source m uid day) nofun, Books.posted, ← sum_map_add]
  exact congrArg sum (map_congr_left fun e _ => reconciled_posting m uid day e)

/-- Whatever the interleaving: what a supplier was ever credited is available, frozen
or in a settlement that was not rejected; what was paid is in paid settlements; no
balance is negative; what was credited for the rows of a day is what those rows earn,
in the tables or dropped; and a usage row was credited once if it is marked and never
if it is not. -/
theorem supplier_ledger_conserved (initial : Initial σ₀)
    (reached : Reachable (system cfg) (fun _ _ _ => True) σ₀ σ) :
    (∀ uid, (balanceOf σ.world.db uid).lifetimeCredited =
        (balanceOf σ.world.db uid).available + tally (share (.frozen uid)) σ.world.db +
          tally (share (.live uid)) σ.world.db) ∧
    (∀ uid, (balanceOf σ.world.db uid).lifetimePaid =
        tally (share (.settledPaid uid)) σ.world.db) ∧
    (∀ uid, 0 ≤ (balanceOf σ.world.db uid).available) ∧
    (∀ uid, (balanceOf σ.world.db uid).lifetimeCredited =
        (σ.world.log.map (posting (.lifetimeCredited uid))).sum) ∧
    (∀ uid day, (σ.world.log.map (posting (.reconciled .earned uid day))).sum =
        tally (share (.source .earned uid day)) σ.world.db +
          (σ.world.log.map (droppedSum .earned uid day)).sum) ∧
    ∀ day id r, σ.world.db.lookup (.usage day id) = some r → 0 < r.supplierEarnMillis →
      timesCredited σ.world.log id = if r.supplierCredited then 1 else 0 := by
  have sound := initial.audited reached
  refine ⟨sound.lifetime, sound.paid, sound.solvent, fun uid => ?_, sound.sources .earned,
    fun day id r found positive => sound.timesCredited found positive⟩
  rw [← tally_lifetimeCredited]
  exact sound.posted _ nofun

/-- Two consumers read the same row; the second finds it marked and gives up. -/
theorem supplier_ledger_conserved_race :
    ∃ σ, Initial sampleState ∧
      Reachable (system { freezeEnabled := false }) (fun _ _ _ => True) sampleState σ ∧
      timesCredited σ.world.log 0 = 1 ∧ (balanceOf σ.world.db 7).lifetimeCredited = 10 := by
  have ran : (run (system { freezeEnabled := false }) (fun _ _ => true) sampleState
      (sampleInsert ++ [.start (.consumeBatch 10), .start (.consumeBatch 10)] ++
        replicate 2 (.act 1 0) ++ replicate 2 (.act 2 0) ++ replicate 13 (.act 1 0) ++
        replicate 13 (.act 2 0))).map
      (fun σ => (σ.world.db.lookup (.usage 0 0), (balanceOf σ.world.db 7).lifetimeCredited)) =
      some (some { cost := 10, supplierUserID := some 7, supplierEarnMillis := 10
                   supplierCredited := true, createdAt := 5 }, 10) := by
    decide +kernel
  obtain ⟨σ, raced, facts⟩ := map_eq_some_iff.mp ran
  obtain ⟨found, lifetime⟩ := Prod.mk.inj facts
  have reached := run_reachable (fun _ _ _ _ => trivial) _ .refl raced
  obtain ⟨-, -, -, -, -, once⟩ := supplier_ledger_conserved sampleState_initial reached
  exact ⟨σ, sampleState_initial, reached, once 0 0 _ found (by decide), lifetime⟩

section

/-- The settlement that a successful request was answered with. -/
def Event.answer : Event → Option (Nat × ApplySettlementRequest)
  | .requested id req => some (id, req)
  | .replied id req => some (id, req)
  | _ => none

def isDeduction (operator : Int) (key : String) : Event → Bool
  | .requested _ req => decide (req.operatorUID = operator ∧ req.requestKey = key)
  | _ => false

def isMove (id : Nat) (target : SupplierSettlementStatus) : Event → Bool
  | .moved i _ _ reached => decide (i = id ∧ reached = target)
  | _ => false

def isTransition (id : Nat) : Event → Bool
  | .moved i _ _ _ => decide (i = id)
  | .claimed i _ _ => decide (i = id)
  | _ => false

variable {id : Nat} {s : SupplierSettlement}

theorem Sound.answered (sound : Sound base w) {e : Event} {req : ApplySettlementRequest}
    (member : e ∈ w.log) (answer : e.answer = some (id, req)) :
    w.db.lookup (.request req.operatorUID req.requestKey) = some id := by
  have named : ∃ s, w.db.lookup (.settlement id) = some s ∧ Names s req := by
    have recorded := sound.recorded e member
    cases e <;> cases answer <;> exact recorded
  obtain ⟨s, found, names⟩ := named
  rw [← names.operator, ← names.key]
  exact (sound.rows (.settlement id) s found).2.2.1

theorem pos_iff_of_count {n : Nat} {P : Prop} [Decidable P]
    (count : (n : Int) = if P then 1 else 0) : 0 < n ↔ P := by
  split at count <;> simp_all

section

variable (sound : Audited base w)

include sound

theorem Audited.deductions (operator : Int) (key : String) : (w.log.countP (isDeduction operator key) : Int) =
      if (w.db.lookup (.request operator key)).isSome then 1 else 0 := by
  have counts : ∀ e ∈ w.log, books.posting (.requests operator key) e =
      if isDeduction operator key e then 1 else 0 := by
    intro e _
    cases e <;> simp [books, posting, isDeduction, movePosting]
  rw [← posted_eq_countP _ counts, ← sound.posted _ (by simp), tally_holder rfl]
  cases w.db.lookup (.request operator key) with
  | none => rfl
  | some id => exact if_pos ⟨rfl, rfl⟩

/-- An account that only one settlement has a share in. -/
theorem Audited.settlement_posted {a : Account} (held : a.holder = some (.settlement id))
    (found : w.db.lookup (.settlement id) = some s) :
    books.posted a w.log = share a (.settlement id) s := by
  rw [← sound.posted _ (by rintro day rfl; cases held), tally_holder held, found]
  rfl

variable (found : w.db.lookup (.settlement id) = some s)

include found

theorem Audited.moves {a : Account} {target : SupplierSettlementStatus}
    (counted : a = .rejections id ∧ target = .rejected ∨ a = .payouts id ∧ target = .paid) :
    (w.log.countP (isMove id target) : Int) = if s.status = target then 1 else 0 := by
  have counts : ∀ e ∈ w.log, books.posting a e = if isMove id target e then 1 else 0 := by
    intro e _
    rcases counted with ⟨rfl, rfl⟩ | ⟨rfl, rfl⟩ <;>
      cases e <;> simp [books, posting, isMove, movePosting]
  rw [← posted_eq_countP (a := a) _ counts]
  rcases counted with ⟨rfl, rfl⟩ | ⟨rfl, rfl⟩ <;>
  · rw [sound.settlement_posted rfl found]
    simp [share]

def isCreation (id : Nat) : Event → Bool
  | .requested i _ => decide (i = id)
  | _ => false

theorem Audited.created_once : w.log.countP (isCreation id) = 1 := by
  have indexed := (sound.rows (.settlement id) s found).2.2.1
  have once := sound.deductions s.requestedOperator s.requestKey
  rw [indexed] at once
  have same : w.log.countP (isCreation id) =
      w.log.countP (isDeduction s.requestedOperator s.requestKey) := by
    apply countP_congr
    intro e member
    cases e with
    | requested i req =>
      simp only [isCreation, isDeduction, decide_eq_true_eq]
      constructor
      · rintro rfl
        obtain ⟨s', found', names⟩ := sound.recorded _ member
        rw [found] at found'
        cases found'
        exact ⟨names.operator.symm, names.key.symm⟩
      · rintro ⟨operator, key⟩
        have answered := sound.answered member rfl
        rw [operator, key, indexed] at answered
        exact (some.inj answered).symm
    | _ => rfl
  rw [same]
  exact_mod_cast once

theorem Audited.revision : s.revision = 1 + w.log.countP (isTransition id) := by
  have counts : ∀ e ∈ w.log, books.posting (.revision id) e =
      if isCreation id e || isTransition id e then 1 else 0 := by
    intro e _
    cases e <;> simp [books, posting, isCreation, isTransition, movePosting]
  have posted := sound.settlement_posted (a := .revision id) rfl found
  rw [posted_eq_countP _ counts] at posted
  have split : w.log.countP (fun e => isCreation id e || isTransition id e) =
      w.log.countP (isCreation id) + w.log.countP (isTransition id) := by
    induction w.log with
    | nil => rfl
    | cons e log ih =>
      simp only [countP_cons, ih]
      cases e <;> simp [isCreation, isTransition] <;> omega
  rw [split, sound.created_once found] at posted
  have shared : share (.revision id) (.settlement id) s = s.revision := if_pos rfl
  rw [← shared, ← posted]
  rfl

end

/-- Whatever the interleaving of requests and commands: a request key deducts at most
once and every answer under it names the same settlement; a settlement is rejected
or paid at most once and not both; its revision counts its transitions; and its
payment key and payee stay once they are set. -/
theorem settlement_idempotent_and_final (initial : Initial σ₀)
    (reached : Reachable (system cfg) (fun _ _ _ => True) σ₀ σ) :
    (∀ operator key, σ.world.log.countP (isDeduction operator key) ≤ 1) ∧
    (∀ uid, (balanceOf σ.world.db uid).available =
      (σ.world.log.map (posting (.available uid))).sum) ∧
    (∀ e ∈ σ.world.log, ∀ e' ∈ σ.world.log, ∀ id id' req req', e.answer = some (id, req) →
      e'.answer = some (id', req') → req.operatorUID = req'.operatorUID →
      req.requestKey = req'.requestKey → id = id') ∧
    (∀ id s, σ.world.db.lookup (.settlement id) = some s →
      σ.world.log.countP (isMove id .rejected) + σ.world.log.countP (isMove id .paid) ≤ 1 ∧
      (0 < σ.world.log.countP (isMove id .rejected) ↔ s.status = .rejected) ∧
      (0 < σ.world.log.countP (isMove id .paid) ↔ s.status = .paid) ∧
      s.revision = 1 + σ.world.log.countP (isTransition id)) ∧
    ∀ σ', Reachable (system cfg) (fun _ _ _ => True) σ σ' →
      ∀ id s, σ.world.db.lookup (.settlement id) = some s →
        ∃ s', σ'.world.db.lookup (.settlement id) = some s' ∧
          (∀ key, s.paymentKey = some key → s'.paymentKey = some key) ∧
          ∀ payee, s.payeeSnapshot = some payee → s'.payeeSnapshot = some payee := by
  have sound := initial.audited reached
  refine ⟨fun operator key => ?_, fun uid => ?_, ?_, fun id s found => ?_, ?_⟩
  · have counted := sound.deductions operator key
    split at counted <;> omega
  · rw [← tally_available]
    exact sound.posted _ nofun
  · intro e member e' member' id id' req req' answer answer' operator key
    have indexed := sound.answered member answer
    rw [operator, key, sound.answered member' answer'] at indexed
    exact (some.inj indexed).symm
  · have rejected := sound.moves found (.inl ⟨rfl, rfl⟩)
    have paid := sound.moves found (.inr ⟨rfl, rfl⟩)
    refine ⟨?_, ?_, ?_, sound.revision found⟩
    · cases status : s.status <;> simp only [status, reduceCtorEq, if_true, if_false] at rejected paid <;>
        omega
    · exact pos_iff_of_count rejected
    · exact pos_iff_of_count paid
  · intro σ' later id s found
    obtain ⟨s', found', before⟩ :=
      (grows_of_reachable initial reached later).rows (.settlement id) s found
    exact ⟨s', found', before.paymentKey, before.payeeSnapshot⟩

/-- The same request twice, then an approval and a rejection. -/
theorem settlement_idempotent_and_final_repeated :
    ∃ σ, Initial sampleState ∧
      Reachable (system { freezeEnabled := false }) (fun _ _ _ => True) sampleState σ ∧
      σ.world.log.countP (isDeduction 1 "k") ≤ 1 ∧
      ∃ s, σ.world.db.lookup (.settlement 0) = some s ∧ s.status = .rejected ∧
        s.revision = 1 + σ.world.log.countP (isTransition 0) := by
  let request : Task := .adminApplySettlement
    { operatorUID := 1, supplierUID := 7, kind := .adminRequest, amountMillis := 4
      requestKey := "k" } ⟨1, 0⟩
  have ran : (run (system { freezeEnabled := false }) (fun _ _ => true) sampleState
      (sampleInsert ++ .start (.consumeBatch 10) :: replicate 15 (.act 1 0) ++
        .start request :: replicate 14 (.act 2 0) ++
        .start request :: replicate 7 (.act 3 0) ++
        .start (.approveSettlement 0 1 ⟨1, 0⟩) :: replicate 10 (.act 4 0) ++
        .start (.rejectSettlement 0 2 none ⟨1, 0⟩) :: replicate 12 (.act 5 0))).map
      (fun σ => (σ.world.db.lookup (.settlement 0)).map SupplierSettlement.status) =
      some (some .rejected) := by
    decide +kernel
  obtain ⟨σ, raced, facts⟩ := map_eq_some_iff.mp ran
  obtain ⟨s, found, rejected⟩ := map_eq_some_iff.mp facts
  have reached := run_reachable (fun _ _ _ _ => trivial) _ .refl raced
  obtain ⟨once, -, -, each, -⟩ := settlement_idempotent_and_final sampleState_initial reached
  exact ⟨σ, sampleState_initial, reached, once 1 "k", s, found, rejected, (each 0 s found).2.2.2⟩

end

variable {day : Nat} {rows : List (Nat × UsageRow)}

def isDrop (day : Nat) : Event → Bool
  | .dropped d _ => decide (d = day)
  | _ => false

theorem Sound.dropped_once (sound : Sound base w) (dropped : .dropped day rows ∈ w.log) :
    w.log.countP (isDrop day) ≤ 1 := by
  have counts : ∀ e ∈ w.log, books.posting (.partitions day) e = if isDrop day e then -1 else 0 := by
    intro e _
    cases e with
    | dropped d rows => by_cases same : d = day <;> simp [books, posting, isDrop, same]
    | _ => rfl
  have balanced := sound.balanced (.partitions day)
  have total := posted_eq_mul_countP (-1) _ counts
  rw [show books.share = share from rfl, tally_holder rfl, tally_holder rfl,
    (sound.recorded _ dropped).1, weight_none] at balanced
  have opened : weight (share (.partitions day)) (.partition day) (base.lookup (.partition day)) ≤ 1 := by
    cases base.lookup (.partition day) with
    | none => simp
    | some present => simp [share]
  omega

theorem sum_of_countP {A : Type} {xs : List A} {x : A} (f : A → Int) (p : A → Bool)
    (member : x ∈ xs) (holds : p x = true) (once : xs.countP p ≤ 1)
    (others : ∀ y ∈ xs, p y = false → f y = 0) : (xs.map f).sum = f x := by
  have there : x ∈ xs.filter p := mem_filter.mpr ⟨member, holds⟩
  rw [countP_eq_length_filter] at once
  obtain ⟨y, only⟩ := length_eq_one_iff.mp (le_antisymm once (length_pos_of_mem there))
  rw [only] at there
  rw [← sum_map_filter others, only, mem_singleton.mp there]
  exact sum_singleton

theorem sourceKey_day {r : UsageRow} {uid : Int} (named : sourceKey r = some (uid, day)) :
    sourceDay r.createdAt = day := by
  rw [sourceKey] at named
  split at named
  · obtain ⟨supplier, -, same⟩ := map_eq_some_iff.mp named
    exact (Prod.mk.inj same).2
  · cases named

theorem Sound.dropped_sum (sound : Sound base w) (dropped : .dropped day rows ∈ w.log) (m : Measure)
    (uid : Int) : (w.log.map (droppedSum m uid day)).sum =
      sourceSum (rows.map Prod.snd) m (uid, day) := by
  refine sum_of_countP (droppedSum m uid day) (isDrop day) dropped (by simp [isDrop])
    (sound.dropped_once dropped) ?_
  intro e member other
  cases e with
  | dropped d rows' =>
    -- the rows of another partition have another day
    have different : d ≠ day := by simpa [isDrop] using other
    rw [droppedSum, sourceSum_eq, List.map_map]
    refine sum_eq_zero (fun n listed => ?_)
    obtain ⟨x, there, rfl⟩ := mem_map.mp listed
    have born := ((sound.recorded _ member).2 x there).2.2.1
    exact if_neg (fun named => different (born.symm.trans (sourceKey_day named)))
  | _ => rfl

theorem Sound.source_gone (sound : Sound base w) (gone : w.db.lookup (.partition day) = none)
    (m : Measure) (uid : Int) : tally (share (.source m uid day)) w.db = 0 := by
  apply tally_eq_zero
  intro k row found
  cases k with
  | usage d id =>
    obtain ⟨born, -, standing, -⟩ := sound.rows (.usage d id) row found
    refine if_neg (fun both => ?_)
    rw [← born, sourceKey_day both.2, gone] at standing
    cases standing
  | _ => rfl

theorem Audited.reconciled_sum (sound : Audited base w)
    (dropped : .dropped day rows ∈ w.log) {uid : Int} {rec : SupplierReconciliation}
    (found : w.db.lookup (.reconciliation uid day) = some rec) (m : Measure) :
    rec.measure m = sourceSum (rows.map Prod.snd) m (uid, day) := by
  have single : tally (share (.reconciled m uid day)) w.db = rec.measure m := by
    rw [tally_holder rfl, found]
    exact if_pos ⟨rfl, rfl⟩
  have total := sound.sources m uid day
  rw [sound.source_gone (sound.recorded _ dropped).1, sound.dropped_sum dropped, zero_add] at total
  rw [← single, ← total]
  exact sound.posted _ nofun

/-- Whatever the interleaving: a dropped partition held no row left to bill or to
credit, and the reconciliation of every supplier in it is closed, carries the sums
over the dropped rows and never changes again. -/
theorem retention_keeps_money_facts (initial : Initial σ₀)
    (reached : Reachable (system cfg) (fun _ _ _ => True) σ₀ σ)
    (dropped : .dropped day rows ∈ σ.world.log) :
    (∀ id, σ.world.db.lookup (.usage day id) = none) ∧
    (∀ x ∈ rows, x.2.billed = true ∧ sourceDay x.2.createdAt = day ∧
      (0 < x.2.supplierEarnMillis → x.2.supplierCredited = true)) ∧
    ∀ x ∈ rows, 0 < x.2.supplierEarnMillis → ∃ uid rec, x.2.supplierUserID = some uid ∧
      σ.world.db.lookup (.reconciliation uid day) = some rec ∧ rec.state = .closed ∧
      (∀ m, rec.measure m = sourceSum (rows.map Prod.snd) m (uid, day)) ∧
      ∀ σ', Reachable (system cfg) (fun _ _ _ => True) σ σ' →
        σ'.world.db.lookup (.reconciliation uid day) = some rec := by
  have sound := initial.audited reached
  obtain ⟨gone, accounted⟩ := sound.recorded _ dropped
  refine ⟨fun id => ?_, fun x member => ?_, fun x member positive => ?_⟩
  · cases found : σ.world.db.lookup (.usage day id) with
    | none => rfl
    | some r =>
      have standing := (sound.rows (.usage day id) r found).2.2.1
      rw [gone] at standing
      cases standing
  · obtain ⟨-, billed, born, earning⟩ := accounted x member
    exact ⟨billed, born, fun positive => (earning positive).1⟩
  · obtain ⟨-, -, -, earning⟩ := accounted x member
    obtain ⟨-, uid, supplier, rec, found, closed⟩ := earning positive
    refine ⟨uid, rec, supplier, found, closed, sound.reconciled_sum dropped found, ?_⟩
    intro σ' later
    obtain ⟨rec', found', kept⟩ :=
      (grows_of_reachable initial reached later).rows (.reconciliation uid day) rec found
    rw [found', kept closed]

/-- A row is billed and credited, then its partition goes. -/
theorem retention_keeps_money_facts_dropped :
    ∃ σ rec, Initial sampleState ∧
      Reachable (system { freezeEnabled := false }) (fun _ _ _ => True) sampleState σ ∧
      σ.world.db.lookup (.reconciliation 7 0) = some rec ∧ rec.state = .closed ∧
      rec.measure .earned = 10 := by
  let row : UsageRow :=
    { cost := 10, billed := true, supplierUserID := some 7, supplierEarnMillis := 10
      supplierCredited := true, createdAt := 5 }
  have ran : (run (system { freezeEnabled := false }) (fun _ _ => true) sampleState
      (sampleInsert ++ .start (.consumeBatch 10) :: replicate 15 (.act 1 0) ++
        .start (.markBilledBulk [0]) :: replicate 4 (.act 2 0) ++
        .start (.retireUsageLogPartition 0 1) :: replicate 11 (.act 3 0))).map
      (fun σ => decide (Event.dropped 0 [(0, row)] ∈ σ.world.log)) = some true := by
    decide +kernel
  obtain ⟨σ, raced, facts⟩ := map_eq_some_iff.mp ran
  have reached := run_reachable (fun _ _ _ _ => trivial) _ .refl raced
  obtain ⟨-, -, closed⟩ :=
    retention_keeps_money_facts sampleState_initial reached (of_decide_eq_true facts)
  obtain ⟨uid, rec, supplier, found, state, sums, -⟩ :=
    closed (0, row) mem_cons_self (by decide)
  obtain rfl : (7 : Int) = uid := some.inj supplier
  refine ⟨σ, rec, sampleState_initial, reached, found, state, (sums .earned).trans ?_⟩
  decide

end C3Api.Supplier
