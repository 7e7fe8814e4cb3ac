import C3Api.Billing.SettleAlone

/-!
# Repeated settlement is one exact settlement

Whatever the limits, the buckets and the order of the calls, repeating them until
none marks a row takes from each user what one settlement of all the rows takes.
Only the overdraft flags, and which of several temporary balances with one expiry
is drained first, depend on how the calls were made.
-/

namespace C3Api.Billing.Settle

open ReadCommitted List Option

/-- How settlements may change a row. A temporary balance in force may go down to
zero, one that has expired is left alone. -/
def RowSettled (now : Nat) : (k : Key) → Option (Row k) → Option (Row k) → Prop
  | .usage _, v, v' => v' = v ∨ ∃ r overdraft, v = some r ∧ r.pending = true ∧ 0 < r.cost ∧
      v' = some { r with billed := true, overdraft }
  | .user _, _, _ => True
  | .temp _, v, v' => v' = v ∨ ∃ t left, v = some t ∧ t.active now = true ∧ 0 ≤ left ∧
      left ≤ t.amount ∧ v' = some { t with amount := left }

variable {now : Nat} {d d' : Rows}

theorem RowSettled.refl (k : Key) (v : Option (Row k)) : RowSettled now k v v := by
  cases k with
  | usage id | temp id => exact .inl rfl
  | user id => trivial

theorem RowSettled.trans {k : Key} {u v x : Option (Row k)} (first : RowSettled now k u v)
    (second : RowSettled now k v x) : RowSettled now k u x := by
  cases k with
  | usage id =>
    rcases first with rfl | ⟨r, overdraft, rfl, pending, positive, rfl⟩
    · exact second
    rcases second with rfl | ⟨r', overdraft', same, pending', -⟩
    · exact .inr ⟨r, overdraft, rfl, pending, positive, rfl⟩
    · cases same
      cases pending_not_billed pending'
  | user id => trivial
  | temp id =>
    rcases first with rfl | ⟨t, left, rfl, active, nonneg, fits, rfl⟩
    · exact second
    rcases second with rfl | ⟨t', left', same, active', nonneg', fits', rfl⟩
    · exact .inr ⟨t, left, rfl, active, nonneg, fits, rfl⟩
    · cases same
      exact .inr ⟨t, left', rfl, active, nonneg', fits'.trans fits, rfl⟩

def User.pay (amount : Int) (u : User) : User := { u with balance := u.balance - amount }

/-- `d'` comes from `d` by settling some of what is due, exactly. -/
structure Settled (now : Nat) (d d' : Rows) : Prop where
  rows : ∀ k, RowSettled now k (d.lookup k) (d'.lookup k)
  dues : ∀ uid, due d' uid ≤ due d uid
  users : ∀ uid, d'.lookup (.user uid) =
    (d.lookup (.user uid)).map (.pay (max 0 (due d uid - due d' uid - pool now d uid none)))
  pools : ∀ uid e, pool now d' uid e = max 0 (pool now d uid e - (due d uid - due d' uid))

theorem map_pay_zero (row : Option User) : row.map (User.pay 0) = row := by
  cases row <;> simp [User.pay]

theorem Settled.refl (now : Nat) (d : Rows) : Settled now d d where
  rows k := .refl k _
  dues _ := le_refl _
  users uid := by
    have stock := pool_nonneg now d uid none
    rw [show max 0 (due d uid - due d uid - pool now d uid none) = 0 by omega, map_pay_zero]
  pools uid e := by
    have stock := pool_nonneg now d uid e
    omega

/-- What the second settlement finds in the pool is what the first has left. -/
theorem Settled.trans {d'' : Rows} (first : Settled now d d') (second : Settled now d' d'') :
    Settled now d d'' where
  rows k := (first.rows k).trans (second.rows k)
  dues uid := (second.dues uid).trans (first.dues uid)
  users uid := by
    have left := first.pools uid none
    have due₂ := second.dues uid
    rw [second.users, first.users, Option.map_map]
    congr 1
    funext u
    simp only [Function.comp_apply, User.pay, sub_sub]
    congr 2
    omega
  pools uid e := by
    have left := first.pools uid e
    have due₂ := second.dues uid
    rw [second.pools, left]
    omega

section

variable {c : Call} {now : Nat} {d : Rows} {overdraft : Nat → Bool}

theorem settleWrites_rows {write : (k : Key) × Option (Row k)}
    (wrote : write ∈ settleWrites overdraft d (c.rows now d) (c.takes now d)) :
    RowSettled now write.1 (d.lookup write.1) write.2 := by
  rcases mem_append.mp wrote with marks | rest
  · obtain ⟨b, listed, r', matching, rfl⟩ := mem_written.mp marks
    obtain ⟨r, found, -, pending, positive⟩ := c.rows_read listed
    rw [found, bind_some, markRow_of_pending pending] at matching
    cases matching
    exact .inr ⟨r, _, found, pending, positive, rfl⟩
  · rcases mem_append.mp rest with charges | draws
    · obtain ⟨t, -, u, -, rfl⟩ := mem_written.mp charges
      trivial
    · obtain ⟨x, listed, t', matching, rfl⟩ := mem_written.mp draws
      obtain ⟨t, found, -, active, positive, enough⟩ := c.takes_fit listed
      rw [found, bind_some, drawTemp, if_pos enough] at matching
      cases matching
      exact .inr ⟨t, _, found, active, by omega, by omega, rfl⟩

theorem settleCall_rows (valid : c.Valid) (k : Key) :
    RowSettled now k (d.lookup k) ((settleCall now d c).lookup k) := by
  obtain ⟨ws, overdraft, same, distinct, order⟩ := settleCall_eq now d valid
  rw [same]
  by_cases member : k ∈ writtenKeys ws
  · obtain ⟨write, wrote, rfl⟩ := mem_map.mp member
    rw [lookup_overlay_of_write d distinct wrote]
    exact settleWrites_rows (order.subset wrote)
  · rw [lookup_overlay_of_notMem d member]
    exact .refl k _

theorem user_mem_settleWrites {rows : List BatchRow} {xs : List Take}
    {uid : Nat} (member : Key.user uid ∈ writtenKeys (settleWrites overdraft d rows xs)) :
    (d.lookup (.user uid)).isSome = true ∧ ∃ t ∈ spill (totals rows) xs, t.uid = uid := by
  rw [settleWrites, writtenKeys_append, writtenKeys_append] at member
  rcases mem_append.mp member with marks | rest
  · exact absurd marks (notMem_written (by simp))
  rcases mem_append.mp rest with charges | draws
  · obtain ⟨t, listed, same, matching⟩ := mem_writtenKeys_written.mp charges
    obtain rfl : t.uid = uid := Key.user.inj same
    refine ⟨?_, t, listed, rfl⟩
    cases found : d.lookup (.user t.uid) with
    | none => simp [found] at matching
    | some u => rfl
  · exact absurd draws (notMem_written (by simp))

theorem settleCall_users (valid : c.Valid) (uid : Nat) :
    (settleCall now d c).lookup (.user uid) = (d.lookup (.user uid)).map
      (.pay (max 0 (owed (c.rows now d) uid - pool now d uid none))) := by
  obtain ⟨ws, overdraft, same, distinct, order⟩ := settleCall_eq now d valid
  have drawn := drawnBy_call c now d uid
  have stock := pool_nonneg now d uid none
  have keys : ∀ k, k ∈ writtenKeys ws ↔
      k ∈ writtenKeys (settleWrites overdraft d (c.rows now d) (c.takes now d)) := fun k =>
    (order.map Sigma.fst).mem_iff
  rw [same]
  by_cases short : pool now d uid none < owed (c.rows now d) uid
  · cases found : d.lookup (.user uid) with
    | none =>
      have fresh : Key.user uid ∉ writtenKeys ws := by
        intro member
        have present := (user_mem_settleWrites ((keys _).mp member)).1
        simp [found] at present
      rw [lookup_overlay_of_notMem d fresh, found]
      rfl
    | some u =>
      let t : Total := { uid, delta := owed (c.rows now d) uid - pool now d uid none }
      have owes : ∃ b ∈ c.rows now d, b.uid = uid := by
        by_contra absent
        have none := owed_eq_zero (fun b listed same => absent ⟨b, listed, same⟩)
        omega
      have left : t ∈ spill (totals (c.rows now d)) (c.takes now d) := by
        refine mem_spill.mpr ⟨⟨⟨uid, owed (c.rows now d) uid⟩, mem_totals.mpr ⟨owes, rfl⟩, rfl, ?_⟩,
          sub_pos.mpr short⟩
        dsimp only [t]
        omega
      have wrote : (⟨.user uid, some (u.pay t.delta)⟩ : (k : Key) × Option (Row k)) ∈ ws := by
        apply order.symm.subset
        refine mem_append_right _ (mem_append_left _ (mem_written.mpr ⟨t, left, ?_⟩))
        exact ⟨u.pay t.delta, by rw [found]; rfl, rfl⟩
      rw [lookup_overlay_of_write d distinct wrote, map_some, max_eq_right (sub_pos.mpr short).le]
  · have fresh : Key.user uid ∉ writtenKeys ws := by
      intro member
      obtain ⟨-, t, left, rfl⟩ := user_mem_settleWrites ((keys _).mp member)
      obtain ⟨⟨o, listed, owner, amount⟩, positive⟩ := mem_spill.mp left
      have total := (mem_totals.mp listed).2
      rw [owner] at total
      omega
    rw [lookup_overlay_of_notMem d fresh, max_eq_left (by omega), map_pay_zero]

theorem settleCall_settled (valid : c.Valid) : Settled now d (settleCall now d c) where
  rows := settleCall_rows valid
  dues uid := by
    have debt := owed_nonneg c now d uid
    rw [due_settleCall valid]
    omega
  users uid := by
    rw [settleCall_users valid, due_settleCall valid, sub_sub_cancel]
  pools uid e := by
    rw [pool_settleCall valid, due_settleCall valid, sub_sub_cancel]

variable {calls : List Call}

def settleCalls (now : Nat) (d : Rows) (calls : List Call) : Rows := calls.foldl (settleCall now) d

theorem settleCalls_settled (valid : ∀ c ∈ calls, c.Valid) :
    Settled now d (settleCalls now d calls) :=
  foldlRecOn calls _ (.refl now d) fun _ settled c member =>
    settled.trans (settleCall_settled (valid c member))

/-- The calls are transactions of the billing system that run one after the
other. -/
theorem settleCalls_reachable (valid : ∀ c ∈ calls, c.Valid) {σ₀ : BillingState} {log : List Event}
    {n : Nat} (before : Reachable system (fun _ _ _ => True) σ₀
      ⟨{ db := d, log, clock := now }, List.replicate n none⟩) :
    ∃ log' n', Reachable system (fun _ _ _ => True) σ₀
      ⟨{ db := settleCalls now d calls, log := log', clock := now }, List.replicate n' none⟩ := by
  induction calls generalizing d log n with
  | nil => exact ⟨log, n, before⟩
  | cons c calls ih =>
    obtain ⟨ws, ghosts, summary, overdraft, ran, -⟩ :=
      Call.solo_eq now d (valid c mem_cons_self)
    have started : Reachable system (fun _ _ _ => True) σ₀ (.alone { db := d, log, clock := now } n
          ⟨.settle c.lane c.limit c.k c.bucket, settleBatch c.lane c.limit c.k c.bucket, {}⟩) := by
      refine .tail (l := .start _) before rfl ?_
      intro sid choice other
      cases other
    have done := solo_reachable (fun _ _ => trivial) _ _ c.choices started ran
    have first : settleCall now d c = overlay d ws := by
      unfold settleCall
      rw [ran]
    have whole : settleCalls now d (c :: calls) = settleCalls now (overlay d ws) calls := by
      rw [← first]
      rfl
    rw [whole]
    exact ih (forall_mem_cons.mp valid).2 done

def backlogShare : (k : Key) → Row k → Int
  | .usage _, r => if r.pending = true ∧ 0 < r.cost then 1 else 0
  | _, _ => 0

def backlog (d : Rows) : Int := tally backlogShare d

theorem backlog_nonneg (d : Rows) : 0 ≤ backlog d := by
  apply tally_nonneg
  intro k row _
  cases k with
  | usage id =>
    dsimp only [backlogShare]
    split <;> decide
  | user id | temp id => exact le_refl _

theorem backlog_settleCall {c : Call} (valid : c.Valid) :
    backlog (settleCall now d c) = backlog d - c.progress now d := by
  have fewer : tally backlogShare (settleCall now d c) = _ := tally_settleCall_pending now d valid
    (fun _ => 1) (fun _ _ => rfl) (fun _ _ => rfl) (fun _ _ => rfl) fun _ _ _ => rfl
  unfold backlog
  rw [fewer, Call.progress_eq now d valid]
  simp

def progressing (now : Nat) : Rows → List Call → Nat
  | _, [] => 0
  | d, c :: calls =>
    (if c.progress now d = 0 then 0 else 1) + progressing now (settleCall now d c) calls

theorem progressing_le (valid : ∀ c ∈ calls, c.Valid) : (progressing now d calls : Int) ≤ backlog d := by
  induction calls generalizing d with
  | nil => exact backlog_nonneg d
  | cons c calls ih =>
    have rest : (progressing now (settleCall now d c) calls : Int) ≤ _ :=
      ih (forall_mem_cons.mp valid).2
    rw [backlog_settleCall (valid c mem_cons_self)] at rest
    rw [progressing]
    split <;> push_cast <;> omega

def Quiescent (now k : Nat) (d : Rows) : Prop :=
  ∀ lane bucket, bucket < k → ∃ c : Call, c.Valid ∧ c.lane = lane ∧ c.k = k ∧ c.bucket = bucket ∧
    c.progress now d = 0

theorem Quiescent.none_pending {k : Nat} (buckets : 0 < k) (quiet : Quiescent now k d) {id : Nat}
    {r : UsageRow} (found : d.lookup (.usage id) = some r) (positive : 0 < r.cost) :
    r.pending = false := by
  by_contra pending
  rw [Bool.not_eq_false] at pending
  obtain ⟨⟨lane, bucket⟩, ⟨small, b, listed, -⟩, -⟩ :=
    lane_bucket_unique now buckets found pending positive
  obtain ⟨c, valid, rfl, rfl, rfl, idle⟩ := quiet lane bucket small
  rw [Call.progress_eq now d valid, length_eq_zero_iff, Call.rows, batch, take_eq_nil_iff] at idle
  rcases idle with zero | empty
  · exact valid.1.ne' zero
  have member := (mem_insertionSort (fun a b : BatchRow => a.id ≤ b.id)).mpr listed
  rw [empty] at member
  cases member

theorem Quiescent.due_eq_zero {k : Nat} (buckets : 0 < k) (quiet : Quiescent now k d) (uid : Nat) :
    due d uid = 0 := by
  apply tally_eq_zero
  intro key row found
  cases key with
  | usage id =>
    apply if_neg
    rintro ⟨-, pending, positive⟩
    rw [quiet.none_pending buckets found positive] at pending
    cases pending
  | user id => rfl
  | temp id => rfl

end

/-- `d'` is what one settlement of everything that is due makes of `d`. -/
structure ExactSettlement (now : Nat) (d d' : Rows) : Prop where
  marked : ∀ id r, d.lookup (.usage id) = some r → r.pending = true → 0 < r.cost →
    ∃ overdraft, d'.lookup (.usage id) = some { r with billed := true, overdraft }
  unmarked : ∀ id, (∀ r, d.lookup (.usage id) = some r → r.pending = true → r.cost ≤ 0) →
    d'.lookup (.usage id) = d.lookup (.usage id)
  /-- What expires first is consumed first. -/
  drained : ∀ uid e, pool now d' uid e = max 0 (pool now d uid e - due d uid)
  temps : ∀ tid, RowSettled now (.temp tid) (d.lookup (.temp tid)) (d'.lookup (.temp tid))
  balances : ∀ uid, d'.lookup (.user uid) =
    (d.lookup (.user uid)).map (.pay (max 0 (due d uid - pool now d uid none)))
  conserved : ∀ uid u u', d.lookup (.user uid) = some u → d'.lookup (.user uid) = some u' →
    u.balance - u'.balance + (pool now d uid none - pool now d' uid none) = due d uid

theorem Settled.exact {k : Nat} (settled : Settled now d d') (buckets : 0 < k)
    (quiet : Quiescent now k d') : ExactSettlement now d d' := by
  have drained : ∀ uid e, pool now d' uid e = max 0 (pool now d uid e - due d uid) := by
    intro uid e
    rw [settled.pools, quiet.due_eq_zero buckets, sub_zero]
  have balances : ∀ uid, d'.lookup (.user uid) =
      (d.lookup (.user uid)).map (.pay (max 0 (due d uid - pool now d uid none))) := by
    intro uid
    rw [settled.users, quiet.due_eq_zero buckets, sub_zero]
  refine ⟨?_, ?_, drained, fun tid => settled.rows (.temp tid), balances, ?_⟩
  · intro id r found pending positive
    rcases settled.rows (.usage id) with same | ⟨r', overdraft, found', -, -, marked⟩
    · rw [quiet.none_pending buckets (same.trans found) positive] at pending
      cases pending
    · cases found.symm.trans found'
      exact ⟨overdraft, marked⟩
  · intro id free
    rcases settled.rows (.usage id) with same | ⟨r, overdraft, found, pending, positive, -⟩
    · exact same
    · have cheap := free r found pending
      omega
  · intro uid u u' found found'
    rw [balances, found] at found'
    cases found'
    rw [drained]
    dsimp only [User.pay]
    omega

section

variable {now : Nat} {d d' d'' : Rows}

/-- No other temporary balance in force of this user expires at the same moment. -/
def SoleExpiry (now : Nat) (d : Rows) (tid : Nat) (t : TempBalance) : Prop :=
  ∀ tid' t', d.lookup (.temp tid') = some t' → t'.userID = t.userID → t'.active now = true →
    t'.expiresAt = t.expiresAt → tid' = tid

def horizon (d : Rows) : Nat :=
  (d.entries.map fun
    | ⟨.temp _, t⟩ => t.expiresAt.getD 0
    | _ => 0).sum

variable {tid : Nat} {t : TempBalance}

theorem le_horizon {m : Nat} (found : d.lookup (.temp tid) = some t)
    (expires : t.expiresAt = some m) : m ≤ horizon d := by
  apply le_sum_of_mem
  refine mem_map.mpr ⟨⟨.temp tid, t⟩, AList.mem_lookup_iff.mp found, ?_⟩
  simp [expires]

def momentBefore (d : Rows) (e : Option Nat) : Option Nat :=
  some (e.elim (horizon d) (fun m => m - 1))

theorem expiresBy_momentBefore {e : Option Nat} (found : d.lookup (.temp tid) = some t)
    (fresh : ∀ m, e = some m → 0 < m) :
    expiresBy t.expiresAt (momentBefore d e) = true ↔
      expiresBy t.expiresAt e = true ∧ t.expiresAt ≠ e := by
  cases expires : t.expiresAt with
  | none => cases e <;> simp [momentBefore, expiresBy]
  | some m =>
    have bound := le_horizon found expires
    cases e with
    | none => simp [momentBefore, expiresBy, bound]
    | some moment =>
      have positive := fresh moment rfl
      simp only [momentBefore, expiresBy, elim_some, decide_eq_true_eq, ne_eq, some.injEq]
      omega

theorem RowSettled.temp_before {t' : TempBalance} {v v' : Option TempBalance}
    (settled : RowSettled now (.temp tid) v v') (found : v' = some t') :
    ∃ t, v = some t ∧ t'.userID = t.userID ∧ t'.expiresAt = t.expiresAt ∧
      (t'.active now = true → t.active now = true) := by
  rcases settled with same | ⟨t, left, before, active, -, -, after⟩
  · exact ⟨t', same.symm.trans found, rfl, rfl, id⟩
  · cases found.symm.trans after
    exact ⟨t, before, rfl, rfl, fun _ => active⟩

theorem poolShare_at {uid : Nat} {e : Option Nat}
    (early : expiresBy t.expiresAt (momentBefore d e) = true ↔
      expiresBy t.expiresAt e = true ∧ t.expiresAt ≠ e) :
    poolShare now uid e (.temp tid) t - poolShare now uid (momentBefore d e) (.temp tid) t =
      if t.userID = uid ∧ t.active now = true ∧ t.expiresAt = e then t.amount else 0 := by
  simp only [poolShare, early]
  by_cases owner : t.userID = uid <;> by_cases active : t.active now = true <;>
    by_cases same : t.expiresAt = e <;> simp [owner, active, same]
  cases e <;> simp [expiresBy]

/-- What is left of a balance with an expiry of its own can be read off the pools. -/
theorem left_of_sole (temps : ∀ tid, RowSettled now (.temp tid) (d.lookup (.temp tid))
      (d'.lookup (.temp tid))) (found : d.lookup (.temp tid) = some t)
    (active : t.active now = true) (sole : SoleExpiry now d tid t) :
    d'.lookup (.temp tid) = some { t with
      amount := pool now d' t.userID t.expiresAt -
        pool now d' t.userID (momentBefore d t.expiresAt) } := by
  have unexpired : t.expiresAt.all (fun moment => decide (now < moment)) = true := by
    simp only [TempBalance.active, Bool.and_eq_true] at active
    exact active.2
  have fresh : ∀ m, t.expiresAt = some m → 0 < m := by
    intro m expires
    simp only [expires, all_some, decide_eq_true_eq] at unexpired
    omega
  obtain ⟨left, nonneg, after⟩ : ∃ left, 0 ≤ left ∧
      d'.lookup (.temp tid) = some { t with amount := left } := by
    rcases temps tid with same | ⟨t₀, left, before, -, nonneg, -, after⟩
    · exact ⟨t.amount, (active_pos active).le, same.trans found⟩
    · cases found.symm.trans before
      exact ⟨left, nonneg, after⟩
  have others : ∀ j row, d'.lookup j = some row → j ≠ .temp tid →
      poolShare now t.userID t.expiresAt j row -
        poolShare now t.userID (momentBefore d t.expiresAt) j row = 0 := by
    intro j row present different
    cases j with
    | usage id => rfl
    | user id => rfl
    | temp tid' =>
      obtain ⟨t₀, before, owner, expiry, active₀⟩ := (temps tid').temp_before present
      have early := expiresBy_momentBefore before fresh
      rw [← expiry] at early
      rw [poolShare_at early]
      apply if_neg
      rintro ⟨mine, still, same⟩
      exact different (congrArg Key.temp
        (sole tid' t₀ before (owner.symm.trans mine) (active₀ still) (expiry.symm.trans same)))
  have total : pool now d' t.userID t.expiresAt -
      pool now d' t.userID (momentBefore d t.expiresAt) = left := by
    have early := expiresBy_momentBefore found fresh
    unfold pool
    rw [tally_sub, tally_single _ d' (.temp tid) others, after, weight_some,
      poolShare_at (t := { t with amount := left }) early]
    simp only [TempBalance.active, unexpired, Bool.and_true, decide_eq_true_eq, true_and, and_true]
    split <;> omega
  rw [after, total]

/-- Two settlements of one table agree in everything but the overdraft flags and
which of several balances with one expiry was drained first. -/
structure SameSettlement (now : Nat) (d d' d'' : Rows) : Prop where
  usage : ∀ id, (d'.lookup (.usage id)).map (fun r => { r with overdraft := false }) =
    (d''.lookup (.usage id)).map (fun r => { r with overdraft := false })
  users : ∀ uid, d'.lookup (.user uid) = d''.lookup (.user uid)
  pools : ∀ uid e, pool now d' uid e = pool now d'' uid e
  temps : ∀ tid, (∀ t, d.lookup (.temp tid) = some t → t.active now = true → SoleExpiry now d tid t) →
    d'.lookup (.temp tid) = d''.lookup (.temp tid)

theorem ExactSettlement.unique (first : ExactSettlement now d d')
    (second : ExactSettlement now d d'') : SameSettlement now d d' d'' := by
  have pools : ∀ uid e, pool now d' uid e = pool now d'' uid e := by
    intro uid e
    rw [first.drained, second.drained]
  refine ⟨?_, ?_, pools, ?_⟩
  · intro id
    by_cases billable : ∃ r, d.lookup (.usage id) = some r ∧ r.pending = true ∧ 0 < r.cost
    · obtain ⟨r, found, pending, positive⟩ := billable
      obtain ⟨overdraft, marked⟩ := first.marked id r found pending positive
      obtain ⟨overdraft', marked'⟩ := second.marked id r found pending positive
      rw [marked, marked']
      rfl
    · have free : ∀ r, d.lookup (.usage id) = some r → r.pending = true → r.cost ≤ 0 := by
        intro r found pending
        by_contra positive
        exact billable ⟨r, found, pending, not_le.mp positive⟩
      rw [first.unmarked id free, second.unmarked id free]
  · intro uid
    rw [first.balances, second.balances]
  · intro tid alone
    by_cases drawable : ∃ t, d.lookup (.temp tid) = some t ∧ t.active now = true
    · obtain ⟨t, found, active⟩ := drawable
      have sole := alone t found active
      rw [left_of_sole first.temps found active sole, left_of_sole second.temps found active sole,
        pools, pools]
    · have kept : ∀ v, RowSettled now (.temp tid) (d.lookup (.temp tid)) v →
          v = d.lookup (.temp tid) := by
        rintro v (same | ⟨t, left, found, active, -⟩)
        · exact same
        · exact absurd ⟨t, found, active⟩ drawable
      rw [kept _ (first.temps tid), kept _ (second.temps tid)]

end

theorem quiescent_one
    (idle : ∀ lane, ({ lane, limit := 1, k := 1, bucket := 0 } : Call).progress now d = 0) :
    Quiescent now 1 d := by
  intro lane bucket small
  obtain rfl : bucket = 0 := by omega
  exact ⟨_, ⟨Nat.one_pos, Nat.one_pos⟩, rfl, rfl, rfl, idle lane⟩

/-- A user who can pay one of two rows, and one with two temporary balances that
never expire. -/
def twoUsers : Rows :=
  let payer : Rows := (∅ : Rows).insert (.user 1) ({ balance := 10 } : User)
  let owing : Rows := (payer.insert (.usage 1) ({ userID := some 1, cost := 6 } : UsageRow)).insert
    (.usage 2) ({ userID := some 1, cost := 6 } : UsageRow)
  let granted : Rows := ((owing.insert (.user 2) ({} : User)).insert
    (.temp 1) ({ userID := 2, amount := 5 } : TempBalance)).insert
    (.temp 2) ({ userID := 2, amount := 5 } : TempBalance)
  granted.insert (.usage 3) ({ userID := some 2, cost := 5 } : UsageRow)

def oneByOne : List Call :=
  [⟨.balance, 1, 1, 0, fun _ => 0⟩, ⟨.fefo, 1, 1, 0, fun _ => 0⟩, ⟨.balance, 1, 1, 0, fun _ => 0⟩]

def atOnce : List Call := [⟨.fefo, 2, 1, 0, fun _ => 1⟩, ⟨.balance, 2, 1, 0, fun _ => 0⟩]

theorem quiescent_oneByOne : Quiescent 0 1 (settleCalls 0 twoUsers oneByOne) := by
  apply quiescent_one
  rintro (_ | _) <;> decide +kernel

theorem quiescent_atOnce : Quiescent 0 1 (settleCalls 0 twoUsers atOnce) := by
  apply quiescent_one
  rintro (_ | _) <;> decide +kernel

end C3Api.Billing.Settle
