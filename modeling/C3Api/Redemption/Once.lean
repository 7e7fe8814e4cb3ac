import C3Api.Redemption.Model

/-!
# A code is granted to a user at most once

The record of a redemption is what stops a second one, and retention deletes the
records. The invariant therefore keeps, for every grant, either the record or a
code that can no longer be redeemed.
-/

namespace C3Api.Redemption

open ReadCommitted List Option Contract World RedemptionType

/-- A later version of a code: only its use count and its status move. -/
structure RedemptionCode.Before (c c' : RedemptionCode) : Prop where
  code : c'.code = c.code
  maxUses : c'.maxUses = c.maxUses
  expiresAt : c'.expiresAt = c.expiresAt
  usedCount : c.usedCount ≤ c'.usedCount
  disabled : c.status = .disabled → c'.status = .disabled

theorem RedemptionCode.Before.refl (c : RedemptionCode) : c.Before c :=
  ⟨rfl, rfl, rfl, le_refl _, id⟩

variable {c : RedemptionCode} {w w' : RedemptionWorld} {codeID userID : Nat}
  {others : List Task} {h : Held Row Empty} {ws : Writes Row}

theorem RedemptionCode.Before.trans {a b : RedemptionCode} (first : a.Before b)
    (second : b.Before c) : a.Before c :=
  ⟨second.code.trans first.code, second.maxUses.trans first.maxUses,
    second.expiresAt.trans first.expiresAt, first.usedCount.trans second.usedCount,
    second.disabled ∘ first.disabled⟩

/-- Codes stay and move forward; other rows are free. -/
def RowBefore : (k : Key) → Option (Row k) → Option (Row k) → Prop
  | .code _, none, v => v = none
  | .code _, some c, v => ∃ c', v = some c' ∧ c.Before c'
  | _, _, _ => True

variable {w'' : RedemptionWorld} {t : Task} {use : RedemptionUse} {error : ServiceError} (k : Key)

theorem RowBefore.refl (v : Option (Row k)) : RowBefore k v v := by
  cases k with
  | code id =>
    cases v with
    | none => rfl
    | some c => exact ⟨c, rfl, .refl c⟩
  | _ => trivial

theorem RowBefore.trans (u v x : Option (Row k)) (first : RowBefore k u v)
    (second : RowBefore k v x) : RowBefore k u x := by
  cases k with
  | code id =>
    cases u with
    | none =>
      obtain rfl : v = none := first
      exact second
    | some c =>
      obtain ⟨c', rfl, before⟩ := first
      obtain ⟨c'', found, after⟩ := second
      exact ⟨c'', found, before.trans after⟩
  | _ => trivial

def UsedUp (w : RedemptionWorld) (codeID : Nat) : Prop :=
  ∃ c, w.db.lookup (.code codeID) = some c ∧ c.maxUses ≤ c.usedCount

def Closed (w : RedemptionWorld) (codeID : Nat) : Prop :=
  ∃ c, w.db.lookup (.code codeID) = some c ∧ (c.status = .disabled ∨ expired c w.clock = true)

def Recorded (w : RedemptionWorld) (codeID userID : Nat) : Prop :=
  ∃ use, w.db.lookup (.use codeID userID) = some use

/-- A record disappears only once its code is used up, or while its code is
disabled or expired and no `Redeem` of it by its user is running. -/
def RetentionHarmless (running : List Task) (w w' : RedemptionWorld) : Prop :=
  ∀ codeID userID, Recorded w codeID userID → ¬ Recorded w' codeID userID →
    UsedUp w codeID ∨ (Closed w codeID ∧
      ∀ c, w.db.lookup (.code codeID) = some c → Task.redeem c.code userID ∉ running)

/-- What a running `Redeem` needs of its code. -/
def Guarded (w : RedemptionWorld) (codeID userID : Nat) : Prop :=
  0 < grants w.log codeID userID → Recorded w codeID userID ∨ UsedUp w codeID

structure Advance (w w' : RedemptionWorld) : Prop where
  clock : w.clock ≤ w'.clock
  rows : ∀ k, RowBefore k (w.db.lookup k) (w'.db.lookup k)

theorem Advance.refl (w : RedemptionWorld) : Advance w w := ⟨le_refl _, fun k => .refl k _⟩

theorem Advance.trans (first : Advance w w') (second : Advance w' w'') : Advance w w'' :=
  ⟨first.clock.trans second.clock, fun k => .trans k _ _ _ (first.rows k) (second.rows k)⟩

theorem Advance.code (advance : Advance w w') (found : w.db.lookup (.code codeID) = some c) :
    ∃ c', w'.db.lookup (.code codeID) = some c' ∧ c.Before c' := by
  have row := advance.rows (.code codeID)
  rw [found] at row
  exact row

theorem expired_mono {c' : RedemptionCode} {now now' : Nat} (same : c'.expiresAt = c.expiresAt)
    (later : now ≤ now') (before : expired c now = true) : expired c' now' = true := by
  unfold expired at before ⊢
  rw [same]
  cases moment : c.expiresAt with
  | none => simp [moment] at before
  | some moment' =>
    simp only [moment, decide_eq_true_eq] at before ⊢
    exact before.trans later

theorem Advance.usedUp (advance : Advance w w') (used : UsedUp w codeID) : UsedUp w' codeID := by
  obtain ⟨c, found, full⟩ := used
  obtain ⟨c', found', before⟩ := advance.code found
  exact ⟨c', found', before.maxUses ▸ full.trans before.usedCount⟩

theorem Advance.closed (advance : Advance w w') (closed : Closed w codeID) : Closed w' codeID := by
  obtain ⟨c, found, shut⟩ := closed
  obtain ⟨c', found', before⟩ := advance.code found
  exact ⟨c', found', shut.imp before.disabled (expired_mono before.expiresAt advance.clock)⟩

/-- What each user had before the first grant, and whether retention is to be harmless. -/
structure Setting where
  before : Holding → Nat → Int
  harmless : Prop

structure Sound (base : Setting) (w : RedemptionWorld) : Prop where
  once : base.harmless → ∀ codeID userID, grants w.log codeID userID ≤ 1
  spent : base.harmless → ∀ codeID userID, 0 < grants w.log codeID userID →
    Recorded w codeID userID ∨ UsedUp w codeID ∨ Closed w codeID
  counted : ∀ codeID, 0 < grantsOf w.log codeID →
    ∃ c, w.db.lookup (.code codeID) = some c ∧ grantsOf w.log codeID ≤ c.usedCount ∧
      grantsOf w.log codeID ≤ c.maxUses
  paid : ∀ held userID, tally (holdingOf held userID) w.db =
    base.before held userID + (w.log.map (grantedTo held userID)).sum

variable {base : Setting}

def relies : Task → RedemptionWorld → RedemptionWorld → Prop
  | .redeem code userID, w, w' => ∀ codeID c, w.db.lookup (.code codeID) = some c →
      c.code = code → Guarded w codeID userID → Guarded w' codeID userID
  | _, _, _ => True

theorem relies.trans (advance : Advance w w') (first : relies t w w') (second : relies t w' w'') :
    relies t w w'' := by
  cases t with
  | redeem code userID =>
    intro codeID c found same guarded
    obtain ⟨c', found', before⟩ := advance.code found
    exact second codeID c' found' (before.code.trans same) (first codeID c found same guarded)
  | _ => trivial

def contract (base : Setting) : Contract system where
  inv := Sound base
  rely t w w' := Advance w w' ∧ (base.harmless → relies t w w')
  permit running w w' := base.harmless → RetentionHarmless running w w'
  rely_refl t w := ⟨.refl w, fun _ => by cases t <;> simp [relies]⟩
  rely_trans first second :=
    ⟨first.1.trans second.1, fun safe => (first.2 safe).trans first.1 (second.2 safe)⟩

theorem Sound.tick (n : Nat) (sound : Sound base w) : (contract base).Quiet w (w.tick n) := by
  have advance : Advance w (w.tick n) := ⟨Nat.le_add_right _ _, fun k => .refl k _⟩
  refine ⟨⟨sound.once, ?_, sound.counted, sound.paid⟩, fun t => ⟨advance, ?_⟩, fun _ => trivial⟩
  · intro safe codeID userID granted
    exact (sound.spent safe codeID userID granted).imp_right (.imp_right advance.closed)
  · intro _
    cases t with
    | redeem code userID => exact fun _ _ _ _ guarded => guarded
    | _ => trivial

theorem Sound.step (sound : Sound base w) (advance : Advance w w')
    (harmless : base.harmless → RetentionHarmless others w w')
    (granted : ∀ codeID userID, 0 < grants w'.log codeID userID →
      0 < grants w.log codeID userID ∨ Recorded w' codeID userID)
    (once : base.harmless → ∀ codeID userID, grants w'.log codeID userID ≤ 1)
    (counted : ∀ codeID, 0 < grantsOf w'.log codeID →
      ∃ c, w'.db.lookup (.code codeID) = some c ∧ grantsOf w'.log codeID ≤ c.usedCount ∧
        grantsOf w'.log codeID ≤ c.maxUses)
    (paid : ∀ held userID, tally (holdingOf held userID) w'.db =
      base.before held userID + (w'.log.map (grantedTo held userID)).sum) :
    (contract base).Kept others h w w' := by
  refine ⟨⟨once, ?_, counted, paid⟩, fun t running => ⟨advance, ?_⟩, fun _ _ => trivial⟩
  · intro safe codeID userID positive
    by_cases recorded : Recorded w' codeID userID
    · exact .inl recorded
    right
    have old := (granted codeID userID positive).resolve_right recorded
    rcases sound.spent safe codeID userID old with kept | used | closed
    · exact (harmless safe codeID userID kept recorded).imp advance.usedUp
        (fun gone => advance.closed gone.1)
    · exact .inl (advance.usedUp used)
    · exact .inr (advance.closed closed)
  · intro safe
    cases t with
    | redeem code userID =>
      intro codeID c found same guarded positive
      by_cases recorded : Recorded w' codeID userID
      · exact .inl recorded
      right
      rcases guarded ((granted codeID userID positive).resolve_right recorded) with kept | used
      · rcases harmless safe codeID userID kept recorded with used | ⟨-, alone⟩
        · exact advance.usedUp used
        · exact absurd (same ▸ running) (alone c found)
      · exact advance.usedUp used
    | _ => trivial

theorem Sound.quiet {e : Event} (sound : Sound base w) (moves : Moves RowBefore w.db ws)
    (harmless : base.harmless → RetentionHarmless others w (w.commit ws [e]))
    (noGrant : ∀ codeID, isGrantOf codeID e = false)
    (noPay : ∀ held userID,
      change (holdingOf held userID) w.db ws = 0 ∧ grantedTo held userID e = 0) :
    (contract base).Kept others h w (w.commit ws [e]) := by
  have advance : Advance w (w.commit ws [e]) := ⟨le_refl _, moves⟩
  have sameOf : ∀ codeID, grantsOf (w.commit ws [e]).log codeID = grantsOf w.log codeID := by
    simp [commit, grantsOf, countP_append, noGrant]
  have same : ∀ codeID userID,
      grants (w.commit ws [e]).log codeID userID = grants w.log codeID userID := by
    intro codeID userID
    have none : isGrant codeID userID e = false := by
      cases e <;> simp_all [isGrant, isGrantOf]
    simp [commit, grants, countP_append, none]
  refine sound.step advance harmless ?_ ?_ ?_ ?_
  · intro codeID userID positive
    exact .inl (same codeID userID ▸ positive)
  · intro safe codeID userID
    rw [same]
    exact sound.once safe codeID userID
  · intro codeID positive
    rw [sameOf] at positive ⊢
    obtain ⟨c, found, used, bounded⟩ := sound.counted codeID positive
    obtain ⟨c', found', before⟩ := advance.code found
    exact ⟨c', found', used.trans before.usedCount, before.maxUses ▸ bounded⟩
  · intro held userID
    have before := sound.paid held userID
    obtain ⟨unchanged, unpaid⟩ := noPay held userID
    simp only [commit, tally_overlay, unchanged, map_append, sum_append,
      map_cons, map_nil, sum_cons, sum_nil, unpaid, add_zero]
    exact before

theorem access_eq (h : Held Row Empty) (k : Key) (v : Option (Row k)) :
    h.access system.guard k (some v) = { h with writes := ⟨k, v⟩ :: h.writes } :=
  access_of_unguarded rfl v

theorem deactivateCodes_safe (base : Setting) (ids : List Nat) (w : RedemptionWorld) :
    (contract base).Safe (.deactivateCodes ids) (deactivateCodes ids) {} w := by
  intro w₁ _
  apply safe_updateEach_done fun _ _ h w =>
    (∀ k ∈ writtenKeys h.writes, ∃ id, k = .code id) ∧ Moves RowBefore w.db h.writes
  · exact fun now later => ⟨now.1, later.moves RowBefore.refl now.2⟩
  · intro k done n h w now
    rwa [enter_of_unguarded rfl]
  · rintro k done n h w row row' ⟨written, moves⟩ part newest changed
    obtain ⟨id, -, rfl⟩ :=
      mem_map.mp (mem_of_mem_filter (part.subset mem_cons_self))
    constructor
    · exact forall_mem_cons.mpr ⟨⟨id, rfl⟩, written⟩
    · apply moves.cons RowBefore.trans
      rw [newest]
      simp only [deactivated] at changed
      split at changed
      · cases changed
        exact ⟨_, rfl, ⟨rfl, rfl, rfl, le_refl _, fun _ => rfl⟩⟩
      · cases changed
  · rintro _ n h w ⟨written, moves⟩ _ w' later others harmless
    apply later.inv.quiet (later.moves RowBefore.refl moves) harmless (fun _ => rfl)
    intro held userID
    refine ⟨change_eq_zero _ _ ?_, rfl⟩
    intro k member row
    obtain ⟨id, rfl⟩ := written k member
    rfl
  · exact ⟨by simp, .nil RowBefore.refl⟩

theorem moves_of_no_code (d : Rows) (uncoded : ∀ k ∈ writtenKeys ws, ∀ id, k ≠ .code id) :
    Moves RowBefore d ws := by
  intro k
  cases k with
  | code id =>
    rw [lookup_overlay_of_notMem d (fun member => uncoded _ member id rfl)]
    exact .refl _ _
  | _ => trivial

theorem deleteRedemptionUsesBefore_safe (base : Setting) (cutoff : Nat) (w : RedemptionWorld) :
    (contract base).Safe .retention (deleteRedemptionUsesBefore cutoff) {} w := by
  intro w' _
  apply safe_visit fun _ _ h _ =>
    ∀ k ∈ writtenKeys h.writes, ∃ codeID userID, k = .use codeID userID
  · intro ref rest total h w next written followed
    apply safe_deleteWhere
    · exact fun w' _ => followed total h w' written
    · intro w' _
      exact followed total h w' written
    intro w' use _ _ _
    exact followed _ _ _ (forall_mem_cons.mpr ⟨⟨_, _, rfl⟩, written⟩)
  · intro total h w written w' later others harmless
    refine later.inv.quiet (moves_of_no_code _ ?_) harmless (fun _ => rfl) ?_
    · rintro k member id rfl
      obtain ⟨codeID, userID, same⟩ := written _ member
      cases same
    · intro held userID
      refine ⟨change_eq_zero _ _ ?_, rfl⟩
      intro k member row
      obtain ⟨codeID, userID, rfl⟩ := written k member
      rfl
  · intro ys _
    simp

def IsResource : Key → Prop
  | .code _ => False
  | .use _ _ => False
  | _ => True

/-- An applier has written the value of the code, and nothing of the code or of
its records. -/
structure Applied (userID : Nat) (c : RedemptionCode) (h : Held Row Empty) (w : RedemptionWorld) :
    Prop where
  resources : ∀ k ∈ writtenKeys h.writes, IsResource k
  worth : ∀ held u, change (holdingOf held u) w.db h.writes =
    grantedTo held u (.granted 0 userID c.type c.value none)

theorem Applied.later (applied : Applied userID c h w) (later : (contract base).Later t h w w') :
    Applied userID c h w' :=
  ⟨applied.resources, fun held u => (later.change (holdingOf held u)).trans (applied.worth held u)⟩

section

variable {next : Tx}

theorem updateUser_safe {set : User → User} {error : ServiceError}
    (worth : ∀ held other u, holdingOf held other (.user userID) (set u) =
      holdingOf held other (.user userID) u +
        grantedTo held other (.granted 0 userID c.type c.value none))
    (followed : ∀ h w', (contract base).rely t w w' → Applied userID c h w' →
      (contract base).Safe t next h w') :
    (contract base).Safe t
      (.updateWhere (.user userID) (fun u => some (set u)) fun
        | none => .abort error
        | some _ => next) {} w := by
  apply safe_updateWhere
  · exact fun _ _ => trivial
  · exact fun _ _ => trivial
  intro w' u u' later newest changed
  cases changed
  rw [access_eq]
  refine followed _ w' later.rely ⟨forall_mem_cons.mpr ⟨trivial, by simp⟩, ?_⟩
  intro held other
  rw [change_cons, newest]
  simp [worth]

variable (followed : ∀ h w', (contract base).rely t w w' → Applied userID c h w' →
  (contract base).Safe t next h w')

include followed

theorem applyBalance_safe (type : c.type = .balance) :
    (contract base).Safe t (applyBalance userID c next) {} w := by
  apply updateUser_safe (c := c)
  · intro held other u
    cases held <;> grind [holdingOf, grantedTo, holding]
  intro h w' moved applied w'' later
  dsimp only
  split
  · trivial
  apply safe_insertSerial trivial
  intro n w₃ further fresh
  rw [access_eq]
  have still := (applied.later later).later further
  refine followed _ w₃ ?_ ⟨forall_mem_cons.mpr ⟨trivial, still.resources⟩, ?_⟩
  · exact (contract base).rely_trans ((contract base).rely_trans moved later.rely) further.rely
  · intro held other
    rw [change_cons, fresh, still.worth held other]
    simp [holdingOf]

theorem applyConcurrency_safe (type : c.type = .concurrency) :
    (contract base).Safe t (applyConcurrency userID c next) {} w := by
  refine updateUser_safe (fun held other u => ?_) followed
  cases held <;> grind [holdingOf, grantedTo, holding]

theorem applyTempBalance_safe (type : c.type = .tempBalance) :
    (contract base).Safe t (applyTempBalance userID c next) {} w := by
  unfold applyTempBalance
  split
  · trivial
  intro w' later
  dsimp only
  split
  · trivial
  apply safe_insertSerial trivial
  intro n w'' further fresh
  rw [access_eq]
  refine followed _ w'' ((contract base).rely_trans later.rely further.rely)
    ⟨forall_mem_cons.mpr ⟨trivial, by simp⟩, ?_⟩
  intro held other
  rw [change_cons, fresh]
  simp [holdingOf, grantedTo, type, holding, eq_comm]

theorem appliers_safe : (contract base).Safe t (appliers c.type userID c next) {} w := by
  cases type : c.type with
  | balance => exact applyBalance_safe followed type
  | concurrency => exact applyConcurrency_safe followed type
  | tempBalance => exact applyTempBalance_safe followed type

end

theorem getByCode_found {view : Rows} {code : String}
    (found : getByCode view code = some (codeID, c)) :
    view.lookup (.code codeID) = some c ∧ c.code = code := by
  obtain ⟨⟨k, row⟩, member, matching⟩ := exists_of_findSome?_eq_some found
  cases k with
  | code id =>
    by_cases same : (row : RedemptionCode).code = code
    · simp only [same, if_true, some.injEq, Prod.mk.injEq] at matching
      obtain ⟨rfl, rfl⟩ := matching
      exact ⟨AList.mem_lookup_iff.mpr member, same⟩
    · simp [same] at matching
  | _ => cases matching

def grantWrites (codeID userID : Nat) (c : RedemptionCode) (use : RedemptionUse)
    (ws : Writes Row) : Writes Row :=
  ⟨.code codeID, some c.used⟩ :: ⟨.use codeID userID, some use⟩ :: ws

section

variable {d : Rows}

theorem lookup_grantWrites_code (codeID' : Nat) (resources : ∀ k ∈ writtenKeys ws, IsResource k) :
    (overlay d (grantWrites codeID userID c use ws)).lookup (.code codeID') =
      if codeID' = codeID then some c.used else d.lookup (.code codeID') := by
  unfold grantWrites
  rw [overlay_cons, overlay_cons]
  split
  next same =>
    subst same
    exact lookup_put_self _ _ _
  next different =>
    rw [lookup_put_of_ne _ (by simp [different]), lookup_put_of_ne _ (by simp),
      lookup_overlay_of_notMem d (resources (.code codeID'))]

theorem lookup_grantWrites_use :
    (overlay d (grantWrites codeID userID c use ws)).lookup (.use codeID userID) = some use := by
  unfold grantWrites
  rw [overlay_cons, overlay_cons, lookup_put_of_ne _ (by simp), lookup_put_self]

theorem grantWrites_moves (current : d.lookup (.code codeID) = some c)
    (resources : ∀ k ∈ writtenKeys ws, IsResource k) :
    Moves RowBefore d (grantWrites codeID userID c use ws) := by
  intro k
  cases k with
  | code codeID' =>
    rw [lookup_grantWrites_code codeID' resources]
    split
    next same =>
      subst same
      rw [current]
      exact ⟨_, rfl, ⟨rfl, rfl, rfl, Nat.le_succ _, id⟩⟩
    · exact .refl _ _
  | _ => trivial

theorem change_grantWrites (held : Holding) (u : Nat) :
    change (holdingOf held u) d (grantWrites codeID userID c use ws) = change (holdingOf held u) d ws := by
  have weightless : ∀ version : Option RedemptionCode,
      weight (holdingOf held u) (.code codeID) version = 0 := by
    intro version
    cases version <;> rfl
  have weightless' : ∀ version : Option RedemptionUse,
      weight (holdingOf held u) (.use codeID userID) version = 0 := by
    intro version
    cases version <;> rfl
  unfold grantWrites
  rw [change_cons, change_cons, weightless, weightless, weightless', weightless']
  simp

end

theorem grants_append_granted (log : List Event) (codeID userID codeID' userID' : Nat)
    (type : RedemptionType) (value : Int) (expiry : Option Nat) :
    grants (log ++ [.granted codeID userID type value expiry]) codeID' userID' =
      grants log codeID' userID' + if codeID = codeID' ∧ userID = userID' then 1 else 0 := by
  simp [grants, countP_append, countP_singleton, isGrant]

theorem grantsOf_append_granted (log : List Event) (codeID userID codeID' : Nat)
    (type : RedemptionType) (value : Int) (expiry : Option Nat) :
    grantsOf (log ++ [.granted codeID userID type value expiry]) codeID' =
      grantsOf log codeID' + if codeID = codeID' then 1 else 0 := by
  simp [grantsOf, countP_append, countP_singleton, isGrantOf]

/-- The commit of a `Redeem` whose code still had room and whose record was new. -/
theorem Sound.grant {type : RedemptionType} {value : Int} {expiry : Option Nat}
    (sound : Sound base w) (unrecorded : w.db.lookup (.use codeID userID) = none)
    (current : w.db.lookup (.code codeID) = some c) (room : c.usedCount < c.maxUses)
    (guarded : base.harmless → Guarded w codeID userID) (resources : ∀ k ∈ writtenKeys ws, IsResource k)
    (worth : ∀ held u, change (holdingOf held u) w.db ws =
      grantedTo held u (.granted codeID userID type value expiry))
    (harmless : base.harmless → RetentionHarmless others w
      (w.commit (grantWrites codeID userID c use ws) [.granted codeID userID type value expiry])) :
    (contract base).Kept others h w
      (w.commit (grantWrites codeID userID c use ws)
        [.granted codeID userID type value expiry]) := by
  have first (safe : base.harmless) : grants w.log codeID userID = 0 := by
    by_contra positive
    rcases guarded safe (Nat.pos_of_ne_zero positive) with ⟨old, found⟩ | ⟨c', found, full⟩
    · rw [unrecorded] at found
      cases found
    · rw [current] at found
      cases found
      exact absurd room (Nat.not_lt.mpr full)
  have advance : Advance w (w.commit (grantWrites codeID userID c use ws)
      [.granted codeID userID type value expiry]) :=
    ⟨le_refl _, grantWrites_moves current resources⟩
  refine sound.step advance harmless ?_ ?_ ?_ ?_
  · intro codeID' userID' positive
    simp only [commit, grants_append_granted] at positive
    by_cases same : codeID = codeID' ∧ userID = userID'
    · obtain ⟨rfl, rfl⟩ := same
      exact .inr ⟨use, lookup_grantWrites_use⟩
    · rw [if_neg same] at positive
      exact .inl positive
  · intro safe codeID' userID'
    simp only [commit, grants_append_granted]
    split
    next same =>
      obtain ⟨rfl, rfl⟩ := same
      simp [first safe]
    · exact sound.once safe codeID' userID'
  · intro codeID' positive
    simp only [commit, grantsOf_append_granted, lookup_grantWrites_code _ resources] at positive ⊢
    have earlier := sound.counted codeID'
    by_cases same : codeID = codeID'
    · subst same
      refine ⟨c.used, by simp, ?_⟩
      have bounded : grantsOf w.log codeID ≤ c.usedCount := by
        rcases Nat.eq_zero_or_pos (grantsOf w.log codeID) with zero | some
        · simp [zero]
        obtain ⟨c', found, used, -⟩ := earlier some
        rw [current] at found
        cases found
        exact used
      simp only [if_true, RedemptionCode.used]
      exact ⟨Nat.succ_le_succ bounded, (Nat.succ_le_succ bounded).trans room⟩
    · rw [if_neg same, add_zero] at positive ⊢
      rw [if_neg (Ne.symm same)]
      exact earlier positive
  · intro held u
    simp only [commit, tally_overlay, change_grantWrites, worth, sound.paid held u,
      map_append, sum_append, map_cons, map_nil, sum_cons, sum_nil,
      add_zero, add_assoc]

/-- What a running `Redeem` knows of its code once the status check has passed. -/
structure Standing (base : Setting) (code : String) (codeID userID : Nat) (w : RedemptionWorld) :
    Prop where
  found : ∃ c, w.db.lookup (.code codeID) = some c ∧ c.code = code
  guarded : base.harmless → Guarded w codeID userID

theorem Standing.rely {code : String} (standing : Standing base code codeID userID w)
    (moved : (contract base).rely (.redeem code userID) w w') :
    Standing base code codeID userID w' := by
  obtain ⟨c, found, text⟩ := standing.found
  obtain ⟨c', found', before⟩ := moved.1.code found
  exact ⟨⟨c', found', before.code.trans text⟩, fun safe =>
    moved.2 safe codeID c found text (standing.guarded safe)⟩

theorem incrementUsed_safe {code : String} (unrecorded : w.db.lookup (.use codeID userID) = none)
    (standing : Standing base code codeID userID w) (applied : Applied userID c h w) :
    (contract base).Safe (.redeem code userID)
      (incrementUsed codeID fun
        | false => .abort error
        | true => .commit [.granted codeID userID c.type c.value c.resourceExpiresAt])
      { h with writes := ⟨.use codeID userID, some use⟩ :: h.writes } w := by
  apply safe_updateWhere
  · exact fun _ _ => trivial
  · exact fun _ _ => trivial
  intro w' c₁ c₁' later newest changed
  rw [access_eq]
  rw [overlay_cons, lookup_put_of_ne _ (by simp),
    lookup_overlay_of_notMem _ (applied.resources (.code codeID))] at newest
  simp only [incremented] at changed
  split at changed
  next room =>
    cases changed
    intro w'' further others harmless
    have unrecorded' : w''.db.lookup (.use codeID userID) = none := by
      rw [further.written (by simp), later.written (by simp)]
      exact unrecorded
    have current : w''.db.lookup (.code codeID) = some c₁ := by
      rw [further.written (by simp)]
      exact newest
    have same : ∀ k ∈ writtenKeys h.writes, w''.db.lookup k = w.db.lookup k := by
      intro k member
      rw [further.written (by simp [member]), later.written (by simp [member])]
    have guarded := ((standing.rely later.rely).rely further.rely).guarded
    refine further.inv.grant unrecorded' current room guarded applied.resources ?_ harmless
    intro held u
    rw [change_congr _ same, applied.worth held u]
    rfl
  · cases changed

theorem createUse_safe {code : String} (standing : Standing base code codeID userID w)
    (applied : Applied userID c h w) :
    (contract base).Safe (.redeem code userID)
      (createUse codeID userID c <| incrementUsed codeID fun
        | false => .abort error
        | true => .commit [.granted codeID userID c.type c.value c.resourceExpiresAt]) h w := by
  intro w' later id
  apply safe_insertRow
  · exact fun _ _ => trivial
  intro w'' further fresh
  rw [lookup_overlay_of_notMem _ (applied.resources (.use codeID userID))] at fresh
  exact incrementUsed_safe fresh ((standing.rely later.rely).rely further.rely)
    ((applied.later later).later further)

theorem redeem_safe (base : Setting) (code : String) (userID : Nat) (w : RedemptionWorld) :
    (contract base).Safe (.redeem code userID) (redeem code userID) {} w := by
  intro w₁ later₁
  dsimp only
  split
  · trivial
  rename_i codeID c byCode
  obtain ⟨found, text⟩ := getByCode_found byCode
  intro w₂ later₂
  dsimp only
  split
  · trivial
  intro w₃ later₃
  dsimp only
  split
  · trivial
  rename_i usable
  rw [not_or, not_not] at usable
  obtain ⟨active, unexpired⟩ := usable
  have standing : Standing base code codeID userID w₁ := by
    refine ⟨⟨c, found, text⟩, ?_⟩
    intro safe granted
    rcases later₁.inv.spent safe codeID userID granted with recorded | used | ⟨c', found', shut⟩
    · exact .inl recorded
    · exact .inr used
    cases found.symm.trans found'
    rcases shut with disabled | passed
    · rw [active] at disabled
      cases disabled
    · exact absurd (expired_mono rfl (later₂.rely.1.trans later₃.rely.1).clock passed) unexpired
  apply appliers_safe
  intro h w₄ moved applied
  exact createUse_safe (((standing.rely later₂.rely).rely later₃.rely).rely moved) applied

theorem task_safe (base : Setting) (t : Task) (w : RedemptionWorld) :
    (contract base).Safe t (system.code t) {} w := by
  cases t with
  | redeem code userID => exact redeem_safe base code userID w
  | deactivateCodes ids => exact deactivateCodes_safe base ids w
  | retention => exact fun w' _ => deleteRedemptionUsesBefore_safe base _ w'

structure Initial (σ : RedemptionState) : Prop where
  idle : σ.sessions = []
  fresh : σ.world.log = []

/-- In every run a code is granted at most `max_uses` times and every grant is worth its value;
if the retention rounds are harmless, a user is granted a code at most once. -/
theorem redeem_at_most_once {σ₀ σ : RedemptionState} (initial : Initial σ₀)
    (reached : Reachable system (fun _ _ _ => True) σ₀ σ) :
    (Reachable system RetentionHarmless σ₀ σ →
        ∀ codeID userID, grants σ.world.log codeID userID ≤ 1) ∧
      (∀ codeID c, σ.world.db.lookup (.code codeID) = some c →
        grantsOf σ.world.log codeID ≤ c.maxUses) ∧
      (∀ held userID, tally (holdingOf held userID) σ.world.db =
        tally (holdingOf held userID) σ₀.world.db +
          (σ.world.log.map (grantedTo held userID)).sum) := by
  have sound {harmless : Prop} (reached : Reachable system
      (fun running w w' => harmless → RetentionHarmless running w w') σ₀ σ) :
      Sound ⟨fun held userID => tally (holdingOf held userID) σ₀.world.db, harmless⟩ σ.world := by
    refine (contract _).sound (fun _ n sound => sound.tick n) (fun t w _ => task_safe _ t w)
      initial.idle ?_ reached
    refine ⟨?_, ?_, ?_, ?_⟩ <;> simp [initial.fresh, grants, grantsOf]
  have free := sound (reached.mono fun _ _ _ _ => False.elim)
  refine ⟨fun harmless => (sound (harmless.mono fun _ _ _ safe _ => safe)).once trivial, ?_,
    free.paid⟩
  intro codeID c found
  rcases Nat.eq_zero_or_pos (grantsOf σ.world.log codeID) with zero | positive
  · simp [zero]
  obtain ⟨c', found', -, bounded⟩ := free.counted codeID positive
  rw [found] at found'
  cases found'
  exact bounded

def sampleCode (maxUses : Nat) : RedemptionCode :=
  { code := "ABCD-EFGH-JKLM-NPQR", type := .balance, value := 500, maxUses }

def sampleState (maxUses : Nat) : RedemptionState :=
  let codes : Rows := (∅ : Rows).insert (.code 1) (sampleCode maxUses)
  { world := { db := codes.insert (.user 7) ({} : User) } }

def redeemTwice (last : Nat) : List (Label Task) :=
  .start (.redeem "ABCD-EFGH-JKLM-NPQR" 7) :: List.replicate 14 (.act 0 0) ++
    [.tick (91 * secondsPerDay), .start .retention] ++ List.replicate 6 (.act 1 0) ++
    .start (.redeem "ABCD-EFGH-JKLM-NPQR" 7) :: List.replicate last (.act 2 1)

/-- A multi-use code is granted to the same user again after 90 days. -/
theorem retention_regrants :
    ∃ σ, Initial (sampleState 2) ∧
      Reachable system (fun _ _ _ => True) (sampleState 2) σ ∧ grants σ.world.log 1 7 = 2 := by
  have ran : (run system (fun _ _ => true) (sampleState 2) (redeemTwice 14)).map
      (fun σ => grants σ.world.log 1 7) = some 2 := by decide +kernel
  obtain ⟨σ, reached, twice⟩ := map_eq_some_iff.mp ran
  exact ⟨σ, ⟨rfl, rfl⟩, run_reachable (fun _ _ _ _ => trivial) _ .refl reached, twice⟩

/-- Every record that disappears is one of a code that is used up. -/
def forgetsUsedUp (w w' : RedemptionWorld) : Bool :=
  w.db.entries.all fun
    | ⟨.use codeID userID, _⟩ => (w'.db.lookup (.use codeID userID)).isSome ||
        (w.db.lookup (.code codeID)).any (fun c => c.maxUses ≤ c.usedCount)
    | _ => true

theorem harmless_of_forgetsUsedUp (running : List Task) (w w' : RedemptionWorld)
    (checked : forgetsUsedUp w w' = true) : RetentionHarmless running w w' := by
  rintro codeID userID ⟨use, found⟩ gone
  have row := all_eq_true.mp checked _ (AList.mem_lookup_iff.mp found)
  simp only [Bool.or_eq_true, isSome_iff_exists, Option.any_eq_true, decide_eq_true_eq] at row
  exact .inl (row.resolve_left gone)

/-- A single-use code is not: its second `Redeem` finds it used up. -/
theorem redeem_at_most_once_single :
    ∃ σ, Initial (sampleState 1) ∧ Reachable system RetentionHarmless (sampleState 1) σ ∧
      grants σ.world.log 1 7 ≤ 1 ∧ tally (holdingOf .money 7) σ.world.db = 0 + 500 := by
  have ran : (run system forgetsUsedUp (sampleState 1) (redeemTwice 13)).map
      (fun σ => (σ.world.log.map (grantedTo .money 7)).sum) = some 500 := by decide +kernel
  obtain ⟨σ, reached, granted⟩ := map_eq_some_iff.mp ran
  have reachable := run_reachable harmless_of_forgetsUsedUp _ .refl reached
  obtain ⟨once, -, paid⟩ :=
    redeem_at_most_once ⟨rfl, rfl⟩ (reachable.mono fun _ _ _ _ => trivial)
  exact ⟨σ, ⟨rfl, rfl⟩, reachable, once reachable 1 7, granted ▸ paid .money 7⟩

end C3Api.Redemption
