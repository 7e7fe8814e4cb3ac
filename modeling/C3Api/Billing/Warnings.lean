import C3Api.Billing.SettleOnce

/-!
# Low-balance warnings

A settlement reports the users whose balance it takes from above their threshold
to it or below. The balance before and after are those of the row the statement
changed, and the row stays locked until the commit, so between two changes of the
balance by others the reports follow the balance without a gap.
-/

namespace C3Api.Billing.Settle

open ReadCommitted List Contract Charged

def warningsIn (uid : Nat) : Event → Nat
  | .settled _ _ summary => summary.balanceWarnings.countP (fun e => e.entityID == uid)
  | _ => 0

def warnings (uid : Nat) (log : List Event) : Nat := (log.map (warningsIn uid)).sum

theorem warnings_append (uid : Nat) (log events : List Event) :
    warnings uid (log ++ events) = warnings uid log + warnings uid events := by
  simp [warnings]

def Crosses (threshold balance balance' : Int) : Prop :=
  0 < threshold ∧ threshold < balance ∧ balance' ≤ threshold

instance (threshold balance balance' : Int) : Decidable (Crosses threshold balance balance') :=
  inferInstanceAs (Decidable (_ ∧ _ ∧ _))

theorem crosses_add {threshold a b c : Int} (first : b ≤ a) (second : c ≤ b) :
    (if Crosses threshold a b then 1 else 0) + (if Crosses threshold b c then 1 else 0) =
      if Crosses threshold a c then 1 else 0 := by
  split <;> split <;> split <;> unfold Crosses at * <;> omega

/-- The user's row after settlements that reported `n` warnings for it. -/
def Declined (n : Nat) : Option User → Option User → Prop
  | none, v' => v' = none ∧ n = 0
  | some u, v' => ∃ amount, 0 ≤ amount ∧
      v' = some { u with balance := u.balance - amount } ∧
      n = if Crosses u.balanceWarningThreshold u.balance (u.balance - amount) then 1 else 0

theorem Declined.refl (v : Option User) : Declined 0 v v := by
  cases v with
  | none => exact ⟨rfl, rfl⟩
  | some u =>
    refine ⟨0, le_rfl, by simp, ?_⟩
    rw [if_neg]
    rintro ⟨-, above, below⟩
    omega

theorem Declined.trans {n n' : Nat} {u v x : Option User} (first : Declined n u v)
    (second : Declined n' v x) : Declined (n + n') u x := by
  cases u with
  | none =>
    obtain ⟨rfl, rfl⟩ := first
    obtain ⟨rfl, rfl⟩ := second
    exact ⟨rfl, rfl⟩
  | some u =>
    obtain ⟨amount, nonneg, rfl, rfl⟩ := first
    obtain ⟨amount', nonneg', rfl, rfl⟩ := second
    refine ⟨amount + amount', by omega, by simp [sub_sub], ?_⟩
    rw [← sub_sub]
    exact crosses_add (by omega) (by dsimp only; omega)

/-- No commit between two top-ups adjusts the balance of the user; a temporary
balance may be granted. -/
def noTopUp (uid : Nat) (_ : List Task) (w w' : BillingWorld) : Prop :=
  ∀ amount, w'.log = w.log ++ [.adjusted uid amount] →
    w'.db.lookup (.user uid) = w.db.lookup (.user uid)

/-- From the moment the log has `n` events on, only settlements change the user's
balance, and they report what they do. -/
def Reports (uid n : Nat) (w w' : BillingWorld) : Prop :=
  ∃ events, w'.log = w.log ++ events ∧ (n ≤ w.log.length →
    Declined (warnings uid events) (w.db.lookup (.user uid)) (w'.db.lookup (.user uid)))

theorem Reports.refl (uid n : Nat) (w : BillingWorld) : Reports uid n w w :=
  ⟨[], by simp, fun _ => .refl _⟩

theorem Reports.trans {uid n : Nat} {w w' w'' : BillingWorld} (first : Reports uid n w w')
    (second : Reports uid n w' w'') : Reports uid n w w'' := by
  obtain ⟨events, log, declined⟩ := first
  obtain ⟨events', log', declined'⟩ := second
  refine ⟨events ++ events', by rw [log', log, append_assoc], fun started => ?_⟩
  rw [warnings_append]
  refine (declined started).trans (declined' ?_)
  rw [log, length_append]
  omega

def warningContract (uid n : Nat) : Contract system where
  inv _ := True
  rely _ w w' := Reports uid n w w'
  permit ts w w' := n ≤ w.log.length → noTopUp uid ts w w'
  rely_refl _ w := .refl uid n w
  rely_trans first second := first.trans second

variable {uid n : Nat} {h : Held Row Empty} {w w' : BillingWorld} {t : Task}

theorem kept_of_declined {events : List Event} (others : List Task)
    (declined : n ≤ w.log.length → Declined (warnings uid events) (w.db.lookup (.user uid))
      ((overlay w.db h.writes).lookup (.user uid))) :
    (warningContract uid n).Kept others h w (w.commit h.writes events) :=
  ⟨trivial, fun _ _ => ⟨events, rfl, declined⟩, fun _ _ => trivial⟩

def Untouched (uid : Nat) (h : Held Row Empty) : Prop := Key.user uid ∉ writtenKeys h.writes

theorem Untouched.commit {events : List Event} {t : Task} (untouched : Untouched uid h)
    (silent : warnings uid events = 0) : (warningContract uid n).Safe t (.commit events) h w := by
  intro w' _ others _
  apply kept_of_declined
  intro _
  rw [silent, lookup_overlay_of_notMem _ untouched]
  exact .refl _

theorem Untouched.access {k : Key} {v : Option (Row k)} (untouched : Untouched uid h)
    (other : k ≠ .user uid) : Untouched uid (h.access system.guard k (some v)) := by
  rw [access_eq]
  unfold Untouched
  rw [mem_writtenKeys_cons, not_or]
  exact ⟨Ne.symm other, untouched⟩

/-! ## The transactions that settle nothing -/

theorem insertBatch_warns (rows : List UsageRow) (w : BillingWorld) :
    (warningContract uid n).Safe t (insertBatch rows) {} w := by
  apply safe_forEach fun _ events h _ => warnings uid events = 0 ∧ Untouched uid h
  · rintro row rest events h w next ⟨silent, untouched⟩ continued
    refine safe_insertSerial trivial fun id w' _ _ => continued _ _ w' ⟨?_, ?_⟩
    · rw [warnings_append, silent]
      rfl
    · exact untouched.access nofun
  · rintro events h w ⟨silent, untouched⟩
    exact untouched.commit silent
  · exact ⟨rfl, by simp [Untouched]⟩

theorem createTempBalance_warns (id : Nat) (amount : Int) (expiresAt : Option Nat)
    (w : BillingWorld) :
    (warningContract uid n).Safe t (createTempBalance id amount expiresAt) {} w := by
  intro w₁ _
  dsimp only
  split
  · trivial
  refine safe_insertSerial trivial fun tid w₂ _ _ => ?_
  exact (Untouched.access (by simp [Untouched]) (by simp)).commit rfl

/-- An adjustment of this user's balance is not permitted once the log is that
long; one of another user leaves the row alone. -/
theorem updateUserBalance_warns (id : Nat) (delta : Int) (w : BillingWorld) :
    (warningContract uid n).Safe t (updateUserBalance id delta) {} w := by
  apply safe_updateWhere
  · exact fun _ _ => trivial
  · exact fun _ _ => trivial
  intro w₁ u u' _ _ _ w' later others permitted
  by_cases same : id = uid
  · subst same
    apply kept_of_declined
    intro started
    have unchanged : (overlay w'.db (Held.access system.guard {} (.user id)
        (some (some u'))).writes).lookup (.user id) = w'.db.lookup (.user id) :=
      permitted started delta rfl
    rw [unchanged]
    exact .refl _
  · refine Untouched.commit (Untouched.access ?_ ?_) rfl w' later others permitted
    · simp [Untouched]
    · simpa using same

/-! ## Settlements -/

def chargesOf (uid : Nat) (charged : List Charged) : List Charged :=
  charged.filter (fun c => c.uid == uid)

/-- What a settlement has done to the user's row so far: nothing, or it has
written the row once and will return that charge. -/
inductive Drafted (uid : Nat) (charged : List Charged) (h : Held Row Empty) (w : BillingWorld) :
    Prop
  | idle (none : chargesOf uid charged = []) (untouched : Untouched uid h)
  | wrote (u : User) (c : Charged) (one : chargesOf uid charged = [c]) (positive : 0 < c.delta)
    (after : c.balanceAfter = u.balance - c.delta)
    (threshold : c.threshold = u.balanceWarningThreshold)
    (written : Key.user uid ∈ writtenKeys h.writes)
    (committed : w.db.lookup (.user uid) = some u)
    (newest : (overlay w.db h.writes).lookup (.user uid) =
      some { u with balance := u.balance - c.delta })

variable {before : List Charged}

section

variable {charged : List Charged}

theorem Drafted.later (drafted : Drafted uid charged h w)
    (later : (warningContract uid n).Later t h w w') : Drafted uid charged h w' := by
  cases drafted with
  | idle none untouched => exact .idle none untouched
  | wrote u c one positive after threshold written committed newest =>
    refine .wrote u c one positive after threshold written ?_ ?_
    · rw [later.written written, committed]
    · rw [lookup_overlay_of_mem w'.db w.db written, newest]

theorem Drafted.access {k : Key} {v : Option (Row k)} (drafted : Drafted uid charged h w)
    (other : k ≠ .user uid) : Drafted uid charged (h.access system.guard k (some v)) w := by
  cases drafted with
  | idle none untouched => exact .idle none (untouched.access other)
  | wrote u c one positive after threshold written committed newest =>
    rw [access_eq]
    refine .wrote u c one positive after threshold (mem_cons_of_mem _ written) committed ?_
    rw [overlay_cons, lookup_put_of_ne v (Ne.symm other), newest]

theorem isCharged_iff_chargesOf : isCharged charged uid = false ↔ chargesOf uid charged = [] := by
  simp [isCharged, chargesOf]

theorem Drafted.charge {c : Charged} {u : User}
    (drafted : Drafted uid (before ++ charged) h w)
    (fresh : isCharged (before ++ charged) uid = false) (own : c.uid = uid) (positive : 0 < c.delta)
    (newest : (overlay w.db h.writes).lookup (.user uid) = some u)
    (after : c.balanceAfter = u.balance - c.delta)
    (threshold : c.threshold = u.balanceWarningThreshold) :
    Drafted uid (before ++ c :: charged) (h.access system.guard (.user uid)
      (some (some { u with balance := u.balance - c.delta }))) w := by
  rw [isCharged_iff_chargesOf] at fresh
  cases drafted with
  | idle none untouched =>
    rw [access_eq]
    refine .wrote u c ?_ positive after threshold (by simp) ?_ (by simp)
    · simp only [chargesOf, filter_append, append_eq_nil_iff] at none
      simp [chargesOf, none, own]
    · rw [← newest, lookup_overlay_of_notMem _ untouched]
  | wrote u c one =>
    rw [fresh] at one
    cases one

theorem Drafted.skip {c : Charged} (drafted : Drafted uid (before ++ charged) h w)
    (other : c.uid ≠ uid) : Drafted uid (before ++ c :: charged) h w := by
  have same : chargesOf uid (before ++ c :: charged) = chargesOf uid (before ++ charged) := by
    simp [chargesOf, other]
  cases drafted with
  | idle none untouched => exact .idle (same.trans none) untouched
  | wrote u c one positive after threshold written committed newest =>
    exact .wrote u c (same.trans one) positive after threshold written committed newest

theorem Drafted.declined (drafted : Drafted uid charged h w) :
    Declined ((chargesOf uid charged).countP crossed) (w.db.lookup (.user uid))
      ((overlay w.db h.writes).lookup (.user uid)) := by
  cases drafted with
  | idle none untouched =>
    rw [none, lookup_overlay_of_notMem _ untouched]
    exact .refl _
  | wrote u c one positive after threshold written committed newest =>
    rw [one, committed, newest]
    refine ⟨c.delta, positive.le, rfl, ?_⟩
    rw [countP_singleton]
    congr 1
    simp only [crossed, Crosses, after, threshold, Bool.and_eq_true, decide_eq_true_eq,
      sub_add_cancel, gt_iff_lt, and_assoc]

theorem warnings_settled (rows ghosts : List BatchRow) (left : List Total)
    (debited forced : List Charged) (marks : Nat) :
    warnings uid [.settled rows ghosts (summarize rows left debited forced marks)] =
      (chargesOf uid (debited ++ forced)).countP crossed := by
  have order := perm_insertionSort (fun a b : Charged => a.uid ≤ b.uid) (debited ++ forced)
  simp only [warnings, map_cons, map_nil, sum_cons, sum_nil, add_zero,
    warningsIn, summarize, countP_map, countP_filter, chargesOf]
  rw [order.countP_eq]
  apply countP_congr
  simp [and_comm]

/-- A statement on rows other than the user's account. -/
theorem updateEach_warns {A B : Type} {κ : A → Key} {set : (x : A) → Row (κ x) → Option (Row (κ x))}
    {f : (x : A) → Row (κ x) → B → B} {next : B → Tx} {xs : List A} {acc : B}
    (charged : List Charged) (others : ∀ x ∈ xs, κ x ≠ .user uid) (start : Drafted uid charged h w)
    (followed : ∀ acc h w, Drafted uid charged h w →
      (warningContract uid n).Safe t (next acc) h w) :
    (warningContract uid n).Safe t (.updateEach κ set f next xs acc) h w := by
  apply safe_updateEach_done fun _ _ h w => Drafted uid charged h w
  · exact fun drafted later => drafted.later later
  · intro x done acc h w drafted
    rwa [enter_eq]
  · intro x done acc h w old new drafted part _ _
    exact drafted.access (others x (part.subset mem_cons_self))
  · exact fun drafted _ => followed _ _ _ drafted
  · exact start

theorem sweepZeroCost_warns (w : BillingWorld) :
    (warningContract uid n).Safe t sweepZeroCost {} w := by
  intro w₁ _
  dsimp only
  split
  · exact Untouched.commit (by simp [Untouched]) rfl
  intro w₂ _
  apply updateEach_warns [] ?_ (.idle rfl (by simp [Untouched]))
  · intro m h w drafted w' later others _
    exact kept_of_declined others fun _ => (drafted.later later).declined
  · intro k listed
    obtain ⟨id, -, rfl⟩ := mem_map.mp (mem_of_mem_filter listed)
    simp

theorem chargeUsers_warns {set : Total → User → Option User} {view : Rows} {owing : List Total}
    {next : List Charged → Tx}
    (takes : ∀ t u u', set t u = some u' → u' = { u with balance := u.balance - t.delta })
    (distinct : (owing.map Total.uid).Nodup) (positive : ∀ t ∈ owing, 0 < t.delta)
    (fresh : ∀ t ∈ owing, isCharged before t.uid = false) (start : Drafted uid before h w)
    (followed : ∀ charged h w, Drafted uid (before ++ charged) h w →
      (warningContract uid n).Safe t (next charged) h w) :
    (warningContract uid n).Safe t (chargeUsers set view owing next) h w := by
  apply safe_updateEach_done fun done charged h w =>
    charged.map Charged.uid = done.map Total.uid ∧ Drafted uid (before ++ charged) h w
  · exact fun now later => ⟨now.1, now.2.later later⟩
  · intro t done charged h w now
    rwa [enter_eq]
  · rintro t done charged h w u u' ⟨same, drafted⟩ part newest changed
    cases takes t u u' changed
    replace part := part.trans filter_sublist.subperm
    have listed : t ∈ owing := part.subset mem_cons_self
    refine ⟨by rw [map_cons, map_cons, same], ?_⟩
    by_cases own : t.uid = uid
    · subst own
      have apart := (nodup_cons.mp (nodup_of_subperm part distinct)).1
      have first : isCharged (before ++ charged) t.uid = false := by
        rw [← same] at apart
        have earlier := fresh t listed
        unfold isCharged at earlier ⊢
        rw [any_append, earlier]
        simpa using apart
      exact drafted.charge first rfl (positive t listed) newest rfl rfl
    · exact (drafted.skip own).access (by simpa using own)
  · exact fun now _ => followed _ _ _ now.2
  · exact ⟨rfl, by rwa [append_nil]⟩

theorem settleOnce_warns {lane : Lane} {limit k bucket : Nat} {concurrent : BillingError → Tx}
    (retried : ∀ e h w, (warningContract uid n).Safe t (concurrent e) h w) (w : BillingWorld) :
    (warningContract uid n).Safe t (settleOnce lane limit k bucket concurrent) {} w := by
  unfold settleOnce
  split
  · trivial
  intro _ _ w₁ _ order
  generalize batch lane _ _ limit k bucket = rows
  apply updateEach_warns [] (by simp) (.idle rfl (by simp [Untouched]))
  intro drawn h w drafted
  have distinct := spill_uids_nodup (totals_uids_nodup rows) drawn
  have positive : ∀ t ∈ spill (totals rows) drawn, 0 < t.delta := fun t member =>
    (mem_spill.mp member).2
  refine chargeUsers_warns (fun t u u' set => ?_) distinct positive (fun _ _ => rfl) drafted ?_
  · simp only [debit] at set
    split at set
    · exact (Option.some.inj set).symm
    · cases set
  intro debited h w drafted
  refine chargeUsers_warns (fun t u u' set => (Option.some.inj set).symm)
    (distinct.sublist (filter_sublist.map _))
    (fun t member => positive t (mem_of_mem_filter member)) ?_ drafted ?_
  · intro t member
    simpa using (mem_filter.mp member).2
  intro forced h w drafted
  apply updateEach_warns _ (by simp) drafted
  intro marks h w drafted
  split
  · exact retried _ h w
  intro w' later others _
  apply kept_of_declined
  intro _
  rw [warnings_settled]
  exact (drafted.later later).declined

theorem task_warns (t : Task) (w : BillingWorld) :
    (warningContract uid n).Safe t (system.code t) {} w := by
  cases t with
  | settle lane limit k bucket =>
    simp only [system, settleBatch]
    split
    · exact Untouched.commit (by simp [Untouched]) rfl
    · refine settleOnce_warns (fun e h w => ?_) w
      intro w' _
      refine settleOnce_warns (fun e h w => ?_) w'
      trivial
  | sweepZeroCost => exact sweepZeroCost_warns w
  | insertBatch rows => exact insertBatch_warns rows w
  | updateUserBalance id delta => exact updateUserBalance_warns id delta w
  | createTempBalance id amount expiresAt => exact createTempBalance_warns id amount expiresAt w

end

section

variable {σ₀ σ₁ σ₂ : BillingState}

theorem reachable_before {n : Nat} (reached : Reachable system (fun _ _ _ => True) σ₀ σ₁)
    (early : σ₁.world.log.length ≤ n) : Reachable system (warningContract uid n).permit σ₀ σ₁ := by
  induction reached with
  | refl => exact .refl
  | tail _ stepped _ ih =>
    have grows := (step_log stepped).length_le
    refine .tail (ih (grows.trans early)) stepped fun _ _ _ started amount logged => ?_
    rw [logged, length_append, length_singleton] at early
    omega

theorem declined_of_reachable (idle : σ₀.sessions = [])
    (before : Reachable system (fun _ _ _ => True) σ₀ σ₁)
    (between : Reachable system (noTopUp uid) σ₁ σ₂) :
    ∃ events, σ₂.world.log = σ₁.world.log ++ events ∧
      Declined (warnings uid events) (σ₁.world.db.lookup (.user uid))
        (σ₂.world.db.lookup (.user uid)) := by
  have ticks (w : BillingWorld) (m : Nat) (_ : True) :
      (warningContract uid σ₁.world.log.length).Quiet w (w.tick m) :=
    ⟨trivial, fun _ => .refl uid _ w, fun _ => trivial⟩
  have holds : (warningContract uid σ₁.world.log.length).Holds σ₁ :=
    holds_of_reachable ticks (fun t w _ => task_warns t w) idle trivial
      (reachable_before before le_rfl)
  have reports : Reports uid σ₁.world.log.length σ₁.world σ₂.world := by
    refine holds.rely_of_reachable ticks (fun t w _ => task_warns t w)
      (fun _ _ _ _ permitted => permitted) ?_ .sweepZeroCost
    exact between.mono fun _ _ _ permitted _ => permitted
  obtain ⟨events, logged, declined⟩ := reports
  exact ⟨events, logged, declined le_rfl⟩

theorem split_of_warnings_eq_one {events : List Event} (one : warnings uid events = 1) :
    ∃ earlier batch later, events = earlier ++ batch :: later ∧ warningsIn uid batch = 1 ∧
      warnings uid earlier = 0 ∧ warnings uid later = 0 := by
  induction events with
  | nil => cases one
  | cons e events ih =>
    have total : warningsIn uid e + warnings uid events = 1 := by simpa [warnings] using one
    by_cases silent : warningsIn uid e = 0
    · obtain ⟨earlier, batch, later, rfl, reported, before, after⟩ :=
        ih (by omega)
      refine ⟨e :: earlier, batch, later, rfl, reported, ?_, after⟩
      simpa [warnings, silent] using before
    · exact ⟨[], e, events, rfl, by omega, rfl, by omega⟩

end

/-- Between two top-ups of a user, whatever the consumers of the two lanes and the
buckets do: the settlements report the user once, in one batch, if the balance
was above the threshold and ends at it or below, and otherwise never. -/
theorem warned_once_per_crossing {σ₀ σ₁ σ₂ : BillingState} (uid : Nat) (u : User)
    (idle : σ₀.sessions = []) (before : Reachable system (fun _ _ _ => True) σ₀ σ₁)
    (between : Reachable system (noTopUp uid) σ₁ σ₂)
    (found : σ₁.world.db.lookup (.user uid) = some u) (warned : 0 < u.balanceWarningThreshold) :
    ∃ u' events, σ₂.world.db.lookup (.user uid) = some u' ∧ σ₂.world.log = σ₁.world.log ++ events ∧
      u'.balanceWarningThreshold = u.balanceWarningThreshold ∧
      (u.balanceWarningThreshold < u.balance → u'.balance ≤ u.balanceWarningThreshold →
        ∃ earlier batch later, events = earlier ++ batch :: later ∧ warningsIn uid batch = 1 ∧
          warnings uid earlier = 0 ∧ warnings uid later = 0) ∧
      (u.balanceWarningThreshold < u.balance → u.balanceWarningThreshold < u'.balance →
        warnings uid events = 0) ∧
      (u.balance ≤ u.balanceWarningThreshold → warnings uid events = 0) := by
  obtain ⟨events, logged, declined⟩ := declined_of_reachable idle before between
  rw [found] at declined
  obtain ⟨amount, -, after, count⟩ := declined
  refine ⟨_, events, after, logged, rfl, ?_, ?_, ?_⟩
  · intro above reached
    rw [if_pos ⟨warned, above, reached⟩] at count
    exact split_of_warnings_eq_one count
  · intro _ stays
    rw [if_neg (fun crosses => absurd crosses.2.2 (not_le.mpr stays))] at count
    exact count
  · intro low
    rw [if_neg (fun crosses => absurd crosses.2.1 (not_lt.mpr low))] at count
    exact count

def warnedState : BillingState :=
  let users : Rows := (∅ : Rows).insert (.user 1)
    ({ balance := 10, balanceWarningThreshold := 5 } : User)
  let owing (rows : Rows) (id : Nat) : Rows :=
    rows.insert (.usage id) ({ userID := some 1, cost := 4 } : UsageRow)
  { world := { db := [1, 2, 3].foldl owing users } }

def threeBatches : List (Label Task) :=
  [0, 1, 2].flatMap fun sid =>
    .start (.settle .balance 1 1 0) :: List.replicate 10 (.act sid 0)

def adjustsLast (w : BillingWorld) : Bool :=
  w.log.getLast?.any fun
    | .adjusted _ _ => true
    | _ => false

theorem noTopUp_of_not_adjustsLast {uid : Nat} {ts : List Task} {w w' : BillingWorld}
    (settled : (!adjustsLast w') = true) : noTopUp uid ts w w' := by
  intro amount logged
  simp [adjustsLast, logged] at settled

theorem warned_once_per_crossing_second :
    ∃ σ : BillingState, Reachable system (noTopUp 1) warnedState σ ∧
      ∃ earlier batch later, σ.world.log = earlier ++ batch :: later ∧ warningsIn 1 batch = 1 ∧
        warnings 1 earlier = 0 ∧ warnings 1 later = 0 := by
  have ran : (run system (fun _ w' => !adjustsLast w') warnedState threeBatches).map
      (fun σ => σ.world.db.lookup (.user 1)) =
      some (some { balance := -2, balanceWarningThreshold := 5 }) := by
    decide +kernel
  obtain ⟨σ, ran, ends⟩ := Option.map_eq_some_iff.mp ran
  have between : Reachable system (noTopUp 1) warnedState σ :=
    run_reachable (fun _ _ _ => noTopUp_of_not_adjustsLast) _ .refl ran
  obtain ⟨u', events, after, logged, -, crossed, -⟩ :=
    warned_once_per_crossing 1 { balance := 10, balanceWarningThreshold := 5 } rfl .refl between
      (by decide +kernel) (by decide)
  cases after.symm.trans ends
  obtain ⟨earlier, batch, later, rfl, reported⟩ := crossed (by decide) (by decide)
  exact ⟨σ, between, earlier, batch, later, logged, reported⟩

end C3Api.Billing.Settle
