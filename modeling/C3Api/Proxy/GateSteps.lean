import C3Api.Interleaving.Pool
import C3Api.Proxy.Gate

/-!
# The atomic steps of the concurrency gate

`proxy/gate.go` keeps its counters behind an atomic pointer to a snapshot. Calls
load the pointer once and then work on the counters they found, while `reload`,
`upsert` and `delete` build and publish another snapshot under a lock. Each step
here is one atomic operation of one call; what a call computes on its own belongs
to the step before it.

A counter is addressed by the user or key it was created for and a serial number,
a snapshot by its number.
-/

namespace C3Api.Proxy.GateSteps

open Machine Interleaving Function

/-- A counter level: the user or the key of a request. -/
inductive Slot where
  | user (id : Int)
  | key (id : Int)
  deriving DecidableEq

/-- A key with the limits that `acquire` reads. -/
structure LimitedKey extends KeyMeta where
  userMaxConc : Int := 0
  keyMaxConc : Int := 0
  deriving DecidableEq

structure ConcSnap where
  total : Int
  selfLast : Int
  takenAt : Int

/-- What a step may read from outside: the instance count, the cluster view and
the clock in nanoseconds. -/
structure Env where
  provider : Option Int := none
  cluster : Option (Slot → Option ConcSnap) := none
  now : Int := 0

def concViewStale : Int := 4000000000

def concShare (limit n : Int) : Int :=
  if 0 < div64 limit n then div64 limit n else 1

def concAllows (env : Env) (s : Slot) (limit lnow : Int) : Bool :=
  match env.cluster with
  | none => decide (lnow ≤ limit)
  | some view =>
    match view s with
    | none => decide (lnow ≤ limit)
    | some snap =>
      if concViewStale ≤ env.now - snap.takenAt then decide (lnow ≤ limit)
      else decide (add64 (sub64 snap.total snap.selfLast) lnow < limit)

/-- The maps of a snapshot hold addresses; `counters` joins its `users` and `keys`. -/
structure Snapshot where
  counters : Slot → Option Nat := fun _ => none
  quotas : Int → Option Nat := fun _ => none
  quotaOps : Int := 0
  quotaRetiring : Bool := false

/-- What happened to the quota entries: a publication opened new ones with some
consumption, or a call added its cost. -/
inductive QuotaEvent where
  | opened (entries : Int → Option Int)
  | added (call : Nat) (key cost : Int)

structure Heap where
  counts : Slot × Nat → Int := fun _ => 0
  quotaCells : Int × Nat → KeyQuota := fun _ => {}
  next : Nat := 0
  snaps : Nat → Snapshot := fun _ => {}
  nextSnap : Nat := 1
  store : Nat := 0
  -- the index of the call that holds the lock
  snapshotMu : Option Nat := none
  -- not part of the program
  log : List QuotaEvent := []

def Heap.current (h : Heap) : Snapshot := h.snaps h.store

def Heap.addCount (h : Heap) (s : Slot) (c : Nat) (n : Int) : Heap :=
  { h with counts := update h.counts (s, c) (h.counts (s, c) + n) }

def Heap.addOps (h : Heap) (snap : Nat) (n : Int) : Heap :=
  { h with
    snaps := update h.snaps snap
      { h.snaps snap with quotaOps := (h.snaps snap).quotaOps + n } }

def Heap.retire (h : Heap) (snap : Nat) : Heap :=
  { h with snaps := update h.snaps snap { h.snaps snap with quotaRetiring := true } }

/-! ## Requests -/

/-- The bits of a level: which counters an admitted request has incremented. -/
structure Level where
  user : Bool
  key : Bool
  deriving DecidableEq

/-- Where a request is. `counted` is the user bit of its level; `borrowed` tells
the second `casInc` of `acquire`, up to the whole limit, from the first, up to
this instance's share. -/
inductive RequestPc where
  | start
  | countUser (snap : Nat)
  | checkUser (snap c : Nat)
  | borrowUser (snap c : Nat)
  | rejectUser (c : Nat)
  | checkKey (snap : Nat) (counted : Bool)
  | loadKey (snap c : Nat) (counted borrowed : Bool) (max : Int)
  | swapKey (snap c : Nat) (counted borrowed : Bool) (max cur : Int)
  | borrowKey (snap c : Nat) (counted : Bool)
  | rejectKey (snap : Nat) (counted : Bool)
  | rejected
  | admitted (level : Level)
  | releaseUser (snap : Nat) (level : Level)
  | releaseKey (snap : Nat) (level : Level)
  | released
  deriving DecidableEq

def stepRequest (env : Env) (h : Heap) (m : LimitedKey) : RequestPc → Option (Heap × RequestPc)
  | .start => some (h, .countUser h.store)
  | .countUser snap =>
    match (h.snaps snap).counters (.user m.userID) with
    | none => some (h, .checkKey snap false)
    | some c =>
      some (h.addCount (.user m.userID) c 1,
        if 0 < m.userMaxConc then .checkUser snap c else .checkKey snap true)
  | .checkUser snap c =>
    some (h,
      if concShare m.userMaxConc (instancesN env.provider) < h.counts (.user m.userID, c) then
        .borrowUser snap c
      else .checkKey snap true)
  | .borrowUser snap c =>
    some (h,
      if concAllows env (.user m.userID) m.userMaxConc (h.counts (.user m.userID, c)) then
        .checkKey snap true
      else .rejectUser c)
  | .rejectUser c => some (h.addCount (.user m.userID) c (-1), .rejected)
  | .checkKey snap counted =>
    if 0 < m.keyMaxConc then
      match (h.snaps snap).counters (.key m.keyID) with
      | none => some (h, .admitted ⟨counted, false⟩)
      | some c =>
        some (h, .loadKey snap c counted false (concShare m.keyMaxConc (instancesN env.provider)))
    else some (h, .admitted ⟨counted, false⟩)
  | .loadKey snap c counted borrowed max =>
    some (h,
      if max ≤ h.counts (.key m.keyID, c) then
        if borrowed then .rejectKey snap counted else .borrowKey snap c counted
      else .swapKey snap c counted borrowed max (h.counts (.key m.keyID, c)))
  | .swapKey snap c counted borrowed max cur =>
    if h.counts (.key m.keyID, c) = cur then
      some (h.addCount (.key m.keyID) c 1, .admitted ⟨counted, true⟩)
    else some (h, .loadKey snap c counted borrowed max)
  | .borrowKey snap c counted =>
    some (h,
      if concAllows env (.key m.keyID) m.keyMaxConc (h.counts (.key m.keyID, c) + 1) then
        .loadKey snap c counted true m.keyMaxConc
      else .rejectKey snap counted)
  | .rejectKey snap counted =>
    if counted then
      match (h.snaps snap).counters (.user m.userID) with
      | none => some (h, .rejected)
      | some c => some (h.addCount (.user m.userID) c (-1), .rejected)
    else some (h, .rejected)
  | .rejected => none
  | .admitted level =>
    if level = ⟨false, false⟩ then some (h, .released)
    else some (h, .releaseUser h.store level)
  | .releaseUser snap level =>
    if level.user then
      match (h.snaps snap).counters (.user m.userID) with
      | none => some (h, .releaseKey snap level)
      | some c => some (h.addCount (.user m.userID) c (-1), .releaseKey snap level)
    else some (h, .releaseKey snap level)
  | .releaseKey snap level =>
    if level.key then
      match (h.snaps snap).counters (.key m.keyID) with
      | none => some (h, .released)
      | some c => some (h.addCount (.key m.keyID) c (-1), .released)
    else some (h, .released)
  | .released => none

/-! ## Rebuilds -/

inductive RebuildOp where
  | reload (metas : List KeyMeta)
  | upsert (keyMeta : KeyMeta)
  | delete (keyID : Int)

inductive CopyTask where
  | user (id : Int)
  | key (id : Int)
  | quota (keyMeta : KeyMeta)

def copyTasks (quotaEnabled : Bool) (metas : List KeyMeta) : List CopyTask :=
  metas.flatMap fun m =>
    [.user m.userID, .key m.keyID] ++ if quotaEnabled && m.hasQuota then [.quota m] else []

def newCounter (h : Heap) (draft : Snapshot) (s : Slot) (value : Int) : Heap × Snapshot :=
  ({ h with counts := update h.counts (s, h.next) value, next := h.next + 1 },
    { draft with counters := update draft.counters s (some h.next) })

def newQuota (h : Heap) (draft : Snapshot) (key : Int) (q : KeyQuota) : Heap × Snapshot :=
  ({ h with quotaCells := update h.quotaCells (key, h.next) q, next := h.next + 1 },
    { draft with quotas := update draft.quotas key (some h.next) })

def Heap.inherited (h : Heap) (old : Snapshot) (s : Slot) : Int :=
  match old.counters s with
  | none => 0
  | some c => h.counts (s, c)

def Heap.inheritedQuota (h : Heap) (old : Snapshot) (m : KeyMeta) : Int :=
  match old.quotas m.keyID with
  | none => m.quotaUsed
  | some c => (h.quotaCells (m.keyID, c)).consumed

def copyEntry (env : Env) (h : Heap) (old draft : Snapshot) : CopyTask → Heap × Snapshot
  | .user id =>
    match draft.counters (.user id) with
    | some _ => (h, draft)
    | none => newCounter h draft (.user id) (h.inherited old (.user id))
  | .key id => newCounter h draft (.key id) (h.inherited old (.key id))
  | .quota m =>
    newQuota h draft m.keyID
      (allocBudget env.provider { consumed := h.inheritedQuota old m } m)

def ensureCounter (built : Heap × Snapshot) (s : Slot) : Heap × Snapshot :=
  match built.2.counters s with
  | some _ => built
  | none => newCounter built.1 built.2 s 0

/-- The quota entry that `upsert` leaves for the key; the budget of one that is
already there is allocated in place. -/
def upsertQuota (quotaEnabled : Bool) (env : Env) (m : KeyMeta) (built : Heap × Snapshot) :
    Heap × Snapshot :=
  if quotaEnabled && m.hasQuota then
    match built.2.quotas m.keyID with
    | none =>
      newQuota built.1 built.2 m.keyID (allocBudget env.provider { consumed := m.quotaUsed } m)
    | some c =>
      ({ built.1 with
          quotaCells := update built.1.quotaCells (m.keyID, c)
            (allocBudget env.provider (built.1.quotaCells (m.keyID, c)) m) },
        built.2)
  else (built.1, { built.2 with quotas := update built.2.quotas m.keyID none })

/-- What `upsert` and `delete` put together once the old snapshot is retired. -/
def assemble (quotaEnabled : Bool) (env : Env) (h : Heap) (old : Snapshot) :
    RebuildOp → Option (Heap × Snapshot)
  | .reload _ => none
  | .upsert m =>
    some (upsertQuota quotaEnabled env m
      (ensureCounter
        (ensureCounter (h, { counters := old.counters, quotas := old.quotas }) (.user m.userID))
        (.key m.keyID)))
  | .delete key =>
    some (h, {
      counters := update old.counters (.key key) none
      quotas := update old.quotas key none })

/-- The quota entries a publication opens, with their consumption. -/
def Heap.openings (h : Heap) (draft : Snapshot) (key : Int) : Option Int :=
  match h.current.quotas key with
  | some _ => none
  | none => (draft.quotas key).map fun c => (h.quotaCells (key, c)).consumed

def Heap.publish (h : Heap) (draft : Snapshot) : Heap :=
  { h with
    snaps := update h.snaps h.nextSnap draft
    nextSnap := h.nextSnap + 1
    store := h.nextSnap
    log := h.log ++ [.opened (h.openings draft)] }

theorem Heap.current_publish (h : Heap) (draft : Snapshot) : (h.publish draft).current = draft := by
  simp [Heap.current, Heap.publish]

theorem Heap.current_retire (h : Heap) :
    (h.retire h.store).current = { h.current with quotaRetiring := true } := by
  simp [Heap.current, Heap.retire]

/-- Where a rebuild is; `peek` is the first load of `delete`. -/
inductive RebuildPc where
  | start
  | peek
  | load
  | flag (old : Nat)
  | drain (old : Nat)
  | copy (old : Nat) (draft : Snapshot) (tasks : List CopyTask)
  | assemble (old : Nat)
  | publish (old : Nat) (draft : Snapshot)
  | unlock
  | done

def stepRebuild (quotaEnabled : Bool) (self : Nat) (env : Env) (h : Heap) (op : RebuildOp) :
    RebuildPc → Option (Heap × RebuildPc)
  | .start =>
    match h.snapshotMu with
    | some _ => none
    | none =>
      some ({ h with snapshotMu := some self },
        match op with
        | .delete _ => .peek
        | _ => .load)
  | .peek =>
    match op with
    | .delete key =>
      match h.current.counters (.key key) with
      | none => some (h, .unlock)
      | some _ => some (h, .load)
    | _ => none
  | .load => some (h, .flag h.store)
  | .flag old => some (h.retire old, .drain old)
  | .drain old =>
    if (h.snaps old).quotaOps = 0 then
      some (h,
        match op with
        | .reload metas => .copy old {} (copyTasks quotaEnabled metas)
        | _ => .assemble old)
    else some (h, .drain old)
  | .copy old draft [] => some (h, .publish old draft)
  | .copy old draft (task :: tasks) =>
    some ((copyEntry env h (h.snaps old) draft task).1,
      .copy old (copyEntry env h (h.snaps old) draft task).2 tasks)
  | .assemble old =>
    (assemble quotaEnabled env h (h.snaps old) op).map fun built =>
      (built.1, .publish old built.2)
  | .publish _ draft => some (h.publish draft, .unlock)
  | .unlock => some ({ h with snapshotMu := none }, .done)
  | .done => none

/-! ## Deductions -/

def Heap.deduct (h : Heap) (self : Nat) (key cost : Int) (c : Nat) : Heap :=
  { h with
    quotaCells := update h.quotaCells (key, c)
      { h.quotaCells (key, c) with consumed := add64 (h.quotaCells (key, c)).consumed cost }
    log := h.log ++ [.added self key cost] }

inductive DeductPc where
  | start
  | load
  | enter (snap : Nat)
  | checkRetiring (snap : Nat)
  | checkStore (snap : Nat)
  | add (snap : Nat)
  | retry (snap : Nat)
  | leave (snap : Nat) (result : Int)
  | returned (result : Int)

def stepDeduct (quotaEnabled : Bool) (self : Nat) (h : Heap) (key cost : Int) :
    DeductPc → Option (Heap × DeductPc)
  | .start =>
    some (h, if !quotaEnabled || key ≤ 0 || cost ≤ 0 then .returned 0 else .load)
  | .load => some (h, .enter h.store)
  | .enter snap => some (h.addOps snap 1, .checkRetiring snap)
  | .checkRetiring snap =>
    some (h, if (h.snaps snap).quotaRetiring then .retry snap else .checkStore snap)
  | .checkStore snap => some (h, if h.store = snap then .add snap else .retry snap)
  | .add snap =>
    match (h.snaps snap).quotas key with
    | none => some (h, .leave snap 0)
    | some c => some (h.deduct self key cost c, .leave snap cost)
  | .retry snap => some (h.addOps snap (-1), .load)
  | .leave snap result => some (h.addOps snap (-1), .returned result)
  | .returned _ => none

/-! ## The gate -/

inductive Call where
  | request (m : LimitedKey) (pc : RequestPc)
  | rebuild (op : RebuildOp) (pc : RebuildPc)
  | deduct (key cost : Int) (pc : DeductPc)

def stepCall (quotaEnabled : Bool) : Step Heap Call Env
  | _, env, h, .request m pc => (stepRequest env h m pc).map fun r => (r.1, .request m r.2)
  | self, env, h, .rebuild op pc =>
    (stepRebuild quotaEnabled self env h op pc).map fun r => (r.1, .rebuild op r.2)
  | self, _, h, .deduct key cost pc =>
    (stepDeduct quotaEnabled self h key cost pc).map fun r => (r.1, .deduct key cost r.2)

abbrev Gate := Pool Heap Call

/-- The gate as `newConcurrencyGate` leaves it: an empty snapshot. -/
def newGate : Gate := { shared := {} }

def Call.starts : Call → Bool
  | .request _ .start => true
  | .rebuild _ .start => true
  | .deduct _ _ .start => true
  | _ => false

/-- The call has not begun, has returned, or is an admitted request between its
`acquire` and its `release`. -/
def Call.idle : Call → Bool
  | .request _ .start | .request _ .rejected | .request _ (.admitted _)
  | .request _ .released => true
  | .rebuild _ .start | .rebuild _ .done => true
  | .deduct _ _ .start | .deduct _ _ (.returned _) => true
  | _ => false

/-- Calls start at their first step and take their steps in any order. -/
def legal : Label Call Env → Bool
  | .start call => call.starts
  | .step _ _ => true

def anyOrder (_ : Gate) (l : Label Call Env) : Prop := legal l = true

/-! ## Building a snapshot -/

/-- Where a snapshot lists a cell of the heap. -/
inductive Place where
  | counter (s : Slot)
  | quota (key : Int)
  deriving DecidableEq

def Snapshot.entry (snap : Snapshot) : Place → Option Nat
  | .counter s => snap.counters s
  | .quota key => snap.quotas key

/-- What a rebuild carries over of a cell. -/
def Heap.reading (h : Heap) : Place → Nat → Int
  | .counter s, c => h.counts (s, c)
  | .quota key, c => (h.quotaCells (key, c)).consumed

/-- A heap with new counters: what was there reads as before. -/
structure Heap.Extends (h h' : Heap) : Prop where
  snaps : h'.snaps = h.snaps
  store : h'.store = h.store
  nextSnap : h'.nextSnap = h.nextSnap
  snapshotMu : h'.snapshotMu = h.snapshotMu
  log : h'.log = h.log
  next : h.next ≤ h'.next
  reading : ∀ p c, c < h.next → h'.reading p c = h.reading p c

variable {h h' h'' : Heap}

theorem Heap.Extends.refl (h : Heap) : h.Extends h :=
  ⟨rfl, rfl, rfl, rfl, rfl, le_rfl, fun _ _ _ => rfl⟩

theorem Heap.Extends.trans (first : h.Extends h') (second : h'.Extends h'') : h.Extends h'' where
  snaps := second.snaps.trans first.snaps
  store := second.store.trans first.store
  nextSnap := second.nextSnap.trans first.nextSnap
  snapshotMu := second.snapshotMu.trans first.snapshotMu
  log := second.log.trans first.log
  next := first.next.trans second.next
  reading p c below :=
    (second.reading p c (below.trans_le first.next)).trans (first.reading p c below)

theorem Heap.Extends.current (grown : h.Extends h') : h'.current = h.current := by
  unfold Heap.current
  rw [grown.snaps, grown.store]

theorem newCounter_extends (draft : Snapshot) (s : Slot) (value : Int) :
    h.Extends (newCounter h draft s value).1 := by
  refine ⟨rfl, rfl, rfl, rfl, rfl, Nat.le_succ _, fun p c below => ?_⟩
  cases p with
  | counter t => exact update_of_ne (fun same => below.ne (Prod.mk.inj same).2) ..
  | quota key => rfl

theorem newQuota_extends (draft : Snapshot) (key : Int) (q : KeyQuota) :
    h.Extends (newQuota h draft key q).1 := by
  refine ⟨rfl, rfl, rfl, rfl, rfl, Nat.le_succ _, fun p c below => ?_⟩
  cases p with
  | counter s => rfl
  | quota other =>
    exact congrArg KeyQuota.consumed (update_of_ne (fun same => below.ne (Prod.mk.inj same).2) ..)

/-- A part that a write leaves alone. -/
theorem update_part {ι α β : Type} [DecidableEq ι] {g : ι → α} {v : α} (i j : ι) (part : α → β)
    (same : part v = part (g i)) : part (update g i v j) = part (g j) := by
  rw [apply_update fun _ => part, same, update_eq_self i fun k => part (g k)]

/-- What is done to a heap and a draft beside an old snapshot: a counter or a quota goes on from
the old one, a quota is allocated again, entries are left out. -/
inductive BuildStep (old : Snapshot) : Heap × Snapshot → Heap × Snapshot → Prop
  | counter {h draft value} (s : Slot) (inherits : value = h.inherited old s) :
    BuildStep old (h, draft) (newCounter h draft s value)
  | quota {h draft} (key : Int) (q : KeyQuota)
    (inherits : ∀ o, old.quotas key = some o → q.consumed = (h.quotaCells (key, o)).consumed) :
    BuildStep old (h, draft) (newQuota h draft key q)
  | allocate {h draft} (cell : Int × Nat) (q : KeyQuota)
    (same : q.consumed = (h.quotaCells cell).consumed) :
    BuildStep old (h, draft) ({ h with quotaCells := update h.quotaCells cell q }, draft)
  | drop {h draft draft'} (ops : draft'.quotaOps = draft.quotaOps)
    (entries : ∀ p c, draft'.entry p = some c → draft.entry p = some c) :
    BuildStep old (h, draft) (h, draft')

abbrev Builds (old : Snapshot) : Heap × Snapshot → Heap × Snapshot → Prop :=
  Relation.ReflTransGen (BuildStep old)

section

variable {old : Snapshot} {built built' : Heap × Snapshot} {s : Slot}

theorem Builds.extends (builds : Builds old built built') : built.1.Extends built'.1 := by
  induction builds with
  | refl => exact .refl built.1
  | tail _ step ih =>
    refine ih.trans ?_
    cases step with
    | counter => exact newCounter_extends ..
    | quota => exact newQuota_extends ..
    | @allocate h _ cell q same =>
      refine ⟨rfl, rfl, rfl, rfl, rfl, le_rfl, fun p c _ => ?_⟩
      cases p with
      | counter s => rfl
      | quota key => exact update_part cell (key, c) KeyQuota.consumed same
    | drop => exact .refl _

theorem copyEntry_builds (env : Env) (draft : Snapshot) (task : CopyTask) :
    Builds old (h, draft) (copyEntry env h old draft task) := by
  cases task with
  | user id =>
    simp only [copyEntry]
    split
    · exact .refl
    · exact .single (.counter _ rfl)
  | key id => exact .single (.counter _ rfl)
  | quota m => exact .single (.quota _ _ fun o before => by simp [Heap.inheritedQuota, before])

theorem ensureCounter_builds (covers : built.2.counters s = none → old.counters s = none) :
    Builds old built (ensureCounter built s) := by
  unfold ensureCounter
  split
  · exact .refl
  next missing => exact .single (.counter s (by simp [Heap.inherited, covers missing]))

theorem ensureCounter_quotas : (ensureCounter built s).2.quotas = built.2.quotas := by
  unfold ensureCounter
  split <;> rfl

theorem ensureCounter_other {other : Slot} (apart : other ≠ s) :
    (ensureCounter built s).2.counters other = built.2.counters other := by
  unfold ensureCounter
  split
  · rfl
  · exact update_of_ne apart ..

theorem of_update_none {ι : Type} [DecidableEq ι] {f : ι → Option Nat} {i j : ι} {c : Nat}
    (listed : update f i none j = some c) : f j = some c := by
  by_cases removed : j = i
  · simp [removed] at listed
  · rwa [update_of_ne removed] at listed

theorem upsertQuota_builds (quotaEnabled : Bool) (env : Env) (m : KeyMeta)
    (same : built.2.quotas = old.quotas) :
    Builds old built (upsertQuota quotaEnabled env m built) := by
  unfold upsertQuota
  split
  · split
    next missing =>
      refine .single (.quota _ _ fun o before => ?_)
      rw [same, before] at missing
      cases missing
    · exact .single (.allocate _ _ (by simp))
  · refine .single (.drop rfl fun p c listed => ?_)
    cases p with
    | counter s => exact listed
    | quota key => exact of_update_none (f := built.2.quotas) listed

/-- The entries of a snapshot, on which nobody is announced. -/
def Snapshot.entries (old : Snapshot) : Snapshot :=
  { counters := old.counters, quotas := old.quotas }

theorem assemble_builds {quotaEnabled : Bool} {env : Env} {op : RebuildOp}
    (assembled : assemble quotaEnabled env h old op = some built) :
    Builds old (h, old.entries) built := by
  cases op with
  | reload metas => cases assembled
  | upsert m =>
    cases assembled
    have first : Builds old (h, old.entries) (ensureCounter _ (.user m.userID)) :=
      ensureCounter_builds id
    refine (first.trans (ensureCounter_builds fun missing => ?_)).trans (upsertQuota_builds _ _ _ ?_)
    · have apart : Slot.key m.keyID ≠ .user m.userID := nofun
      exact (ensureCounter_other apart).symm.trans missing
    · exact ensureCounter_quotas.trans ensureCounter_quotas
  | delete key =>
    cases assembled
    refine .single (.drop rfl fun p c listed => ?_)
    cases p with
    | counter s => exact of_update_none (f := old.counters) listed
    | quota other => exact of_update_none (f := old.quotas) listed

end

end C3Api.Proxy.GateSteps
