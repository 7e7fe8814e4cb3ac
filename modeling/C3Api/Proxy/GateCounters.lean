import C3Api.Proxy.GateCopies

/-!
# When the gate's in-flight counters are exact

A reload gives every user and key a new counter that starts at the value of the
old one. Nothing keeps a request from counting on the old counter after that, nor
a counter from being created while requests hold its level, so the counters can
lose requests and become negative (`counter_negative`). They are exact in the runs
without these two steps (`counters_exact`).
-/

namespace C3Api.Proxy.GateSteps

open Machine Interleaving Call List

def RequestPc.userHeld : RequestPc → Bool
  | .checkUser _ _ | .borrowUser _ _ | .rejectUser _ => true
  | .checkKey _ counted | .loadKey _ _ counted _ _ | .swapKey _ _ counted _ _ _
  | .borrowKey _ _ counted | .rejectKey _ counted => counted
  | .admitted level | .releaseUser _ level => level.user
  | _ => false

def RequestPc.keyHeld : RequestPc → Bool
  | .admitted level | .releaseUser _ level | .releaseKey _ level => level.key
  | _ => false

def RequestPc.holds (m : LimitedKey) (pc : RequestPc) : Slot → Bool
  | .user id => decide (m.userID = id) && pc.userHeld
  | .key id => decide (m.keyID = id) && pc.keyHeld

def Call.holds (s : Slot) : Call → Bool
  | .request m pc => pc.holds m s
  | _ => false

def Call.hold (s : Slot) (call : Call) : Int := if call.holds s then 1 else 0

/-- The request is admitted, not yet released, and holds the level. -/
def Call.admittedAt (s : Slot) : Call → Bool
  | .request m (.admitted level) => (RequestPc.admitted level).holds m s
  | _ => false

/-- The counter that the next step of a request changes, if it is there. -/
def RequestPc.counter (h : Heap) (s : Slot) : RequestPc → Option Nat
  | .countUser snap | .rejectKey snap _ | .releaseUser snap _ | .releaseKey snap _ =>
    (h.snaps snap).counters s
  | .rejectUser c | .swapKey _ c _ _ _ _ => some c
  | _ => none

def Call.draft : Call → Option Snapshot
  | .rebuild _ pc => pc.draft
  | _ => none

def Call.slots : Call → List Slot
  | .request m _ => [.user m.userID, .key m.keyID]
  | _ => []

/-- The request works on the current counter of the level, or the level has none,
and no rebuild has made a copy of it. -/
def settled (σ : Gate) (pc : RequestPc) (s : Slot) : Bool :=
  let current := σ.shared.current.counters s
  (current.isNone || decide (current = pc.counter σ.shared s)) &&
    σ.procs.all fun call => call.draft.all fun draft =>
      (draft.counters s).isNone || decide (draft.counters s = current)

/-- Requests change their hold on a level only while it is settled, and a counter
is published for a new level only while nobody holds it. -/
def orderly (σ : Gate) : Label Call Env → Bool
  | .start call => call.starts
  | .step i env =>
    match σ.procs[i]? with
    | some (.request m pc) =>
      (stepRequest env σ.shared m pc).all fun r =>
        (request m pc).slots.all fun s =>
          decide (r.2.holds m s = pc.holds m s) || settled σ pc s
    | some (.rebuild _ (.publish _ draft)) =>
      σ.procs.all fun call => call.slots.all fun s =>
        !call.holds s || (σ.shared.current.counters s).isSome || (draft.counters s).isNone
    | _ => true

variable {quotaEnabled : Bool} {i : Nat} {env : Env} {h h' : Heap}

section

variable {σ : Gate} {s : Slot}

theorem mem_slots_of_holds {call : Call} (holds : call.holds s = true) : s ∈ call.slots := by
  cases call with
  | request m pc =>
    cases s with
    | user id =>
      obtain ⟨same, -⟩ : m.userID = id ∧ pc.userHeld = true := by
        simpa [Call.holds, RequestPc.holds] using holds
      simp [Call.slots, same]
    | key id =>
      obtain ⟨same, -⟩ : m.keyID = id ∧ pc.keyHeld = true := by
        simpa [Call.holds, RequestPc.holds] using holds
      simp [Call.slots, same]
  | _ => cases holds

/-- What an orderly run knows when a request changes its hold. -/
theorem orderly_request {m : LimitedKey} {pc pc' : RequestPc} {h' : Heap}
    (ordered : orderly σ (.step i env) = true) (found : σ.procs[i]? = some (.request m pc))
    (stepped : stepRequest env σ.shared m pc = some (h', pc'))
    (changed : pc'.holds m s ≠ pc.holds m s) :
    (σ.shared.current.counters s = none ∨ σ.shared.current.counters s = pc.counter σ.shared s) ∧
    ∀ (j : Nat) op rpc draft, σ.procs[j]? = some (.rebuild op rpc) → rpc.draft = some draft →
      draft.counters s = none ∨ draft.counters s = σ.shared.current.counters s := by
  have member : s ∈ (Call.request m pc).slots := by
    cases before : pc.holds m s with
    | true => exact mem_slots_of_holds before
    | false =>
      have after : (Call.request m pc').holds s = true := by
        simpa [Call.holds, before] using changed
      have member : s ∈ (Call.request m pc').slots := mem_slots_of_holds after
      exact member
  simp only [orderly, found, stepped, Option.all_some, all_eq_true] at ordered
  have settles : settled σ pc s = true := by simpa [changed] using ordered s member
  obtain ⟨counter, copies⟩ : (σ.shared.current.counters s = none ∨
      σ.shared.current.counters s = pc.counter σ.shared s) ∧ ∀ call ∈ σ.procs,
      call.draft.all (fun draft => (draft.counters s).isNone ||
        decide (draft.counters s = σ.shared.current.counters s)) = true := by
    simpa [settled] using settles
  refine ⟨counter, fun j op rpc draft foundOther held => ?_⟩
  have copied := copies _ (mem_of_getElem? foundOther)
  simpa [Call.draft, held] using copied

theorem orderly_publish {op : RebuildOp} {old : Nat} {draft : Snapshot}
    (ordered : orderly σ (.step i env) = true)
    (found : σ.procs[i]? = some (.rebuild op (.publish old draft)))
    (absent : σ.shared.current.counters s = none) (added : draft.counters s ≠ none) :
    ∀ call ∈ σ.procs, call.holds s = false := by
  intro call member
  simp only [orderly, found, all_eq_true] at ordered
  by_contra held
  have holds : call.holds s = true := by simpa using held
  have allowed := ordered call member s (mem_slots_of_holds holds)
  simp [holds, absent, added] at allowed

end

section

variable {m : LimitedKey} {pc pc' : RequestPc}

/-- A step either leaves the level alone, or moves the hold and the counter
together, or moves the hold of a level that has no counter. -/
inductive Effect (h : Heap) (m : LimitedKey) (pc : RequestPc) (h' : Heap) (pc' : RequestPc)
    (s : Slot) : Prop
  | still (same : pc'.holds m s = pc.holds m s)
    (kept : ∀ c, h'.counts (s, c) = h.counts (s, c)) : Effect h m pc h' pc' s
  | moved (c : Nat) (at_ : pc.counter h s = some c) (changed : pc'.holds m s ≠ pc.holds m s)
    (count : h'.counts (s, c) =
      h.counts (s, c) - (request m pc).hold s + (request m pc').hold s)
    (kept : ∀ d, d ≠ c → h'.counts (s, d) = h.counts (s, d)) : Effect h m pc h' pc' s
  | missing (absent : pc.counter h s = none) (changed : pc'.holds m s ≠ pc.holds m s)
    (kept : ∀ c, h'.counts (s, c) = h.counts (s, c)) : Effect h m pc h' pc' s

/-- The step changes the request's hold on this level alone. -/
structure Flips (m : LimitedKey) (pc pc' : RequestPc) (t : Slot) (held : Bool) : Prop where
  before : pc.holds m t = held
  after : pc'.holds m t = !held
  others : ∀ s, s ≠ t → pc'.holds m s = pc.holds m s

theorem flips_user (user : pc'.userHeld = !pc.userHeld) (key : pc'.keyHeld = pc.keyHeld) :
    Flips m pc pc' (.user m.userID) pc.userHeld where
  before := by simp [RequestPc.holds]
  after := by simp [RequestPc.holds, user]
  others s different := by
    cases s with
    | user id =>
      have other : m.userID ≠ id := fun same => different (same ▸ rfl)
      simp [RequestPc.holds, other]
    | key id => simp only [RequestPc.holds, key]

theorem flips_key (key : pc'.keyHeld = !pc.keyHeld) (user : pc'.userHeld = pc.userHeld) :
    Flips m pc pc' (.key m.keyID) pc.keyHeld where
  before := by simp [RequestPc.holds]
  after := by simp [RequestPc.holds, key]
  others s different := by
    cases s with
    | user id => simp only [RequestPc.holds, user]
    | key id =>
      have other : m.keyID ≠ id := fun same => different (same ▸ rfl)
      simp [RequestPc.holds, other]

variable {s t : Slot} {held : Bool}

theorem Flips.changed (flips : Flips m pc pc' t held) : pc'.holds m t ≠ pc.holds m t := by
  rw [flips.before, flips.after]
  simp

theorem effect_addCount {c : Nat} {n : Int} (flips : Flips m pc pc' t held)
    (at_ : pc.counter h t = some c) (change : n = if held then -1 else 1) :
    Effect h m pc (h.addCount t c n) pc' s := by
  by_cases same : s = t
  · subst same
    refine .moved c at_ flips.changed ?_ fun d different => ?_
    · cases held <;> simp [change, Heap.addCount, hold, holds, flips.before, flips.after,
          Int.sub_eq_add_neg]
    · exact Function.update_of_ne (fun same => different (Prod.mk.inj same).2) ..
  · refine .still (flips.others s same) fun d => ?_
    exact Function.update_of_ne (fun equal => same (Prod.mk.inj equal).1) ..

theorem effect_missing (flips : Flips m pc pc' t held) (absent : pc.counter h t = none) :
    Effect h m pc h pc' s := by
  by_cases same : s = t
  · subst same
    exact .missing absent flips.changed fun _ => rfl
  · exact .still (flips.others s same) fun _ => rfl

theorem effect_drop {next : RequestPc}
    (stepped : (match pc.counter h t with
      | none => some (h, next)
      | some c => some (h.addCount t c (-1), next)) = some (h', pc'))
    (flips : Flips m pc next t true) : Effect h m pc h' pc' s := by
  split at stepped
  next absent =>
    cases stepped
    exact effect_missing flips absent
  next c found =>
    cases stepped
    exact effect_addCount flips found rfl

theorem effect_still (user : pc'.userHeld = pc.userHeld) (key : pc'.keyHeld = pc.keyHeld)
    (s : Slot) : Effect h m pc h pc' s := by
  refine .still ?_ fun _ => rfl
  cases s <;> simp only [RequestPc.holds, user, key]

theorem stepRequest_effect (stepped : stepRequest env h m pc = some (h', pc')) (s : Slot) :
    Effect h m pc h' pc' s := by
  cases pc <;> simp only [stepRequest, reduceCtorEq] at stepped
  case start =>
    cases stepped
    apply effect_still <;> rfl
  case countUser snap =>
    split at stepped
    · cases stepped
      apply effect_still <;> rfl
    next c found =>
      cases stepped
      split
      · exact effect_addCount (flips_user rfl rfl) found rfl
      · exact effect_addCount (flips_user rfl rfl) found rfl
  case checkUser snap c | borrowUser snap c | borrowKey snap c counted =>
    cases stepped
    split <;> apply effect_still <;> rfl
  case rejectUser c =>
    cases stepped
    exact effect_addCount (flips_user rfl rfl) rfl rfl
  case checkKey snap counted =>
    split at stepped
    · split at stepped <;> cases stepped <;> apply effect_still <;> rfl
    · cases stepped
      apply effect_still <;> rfl
  case loadKey snap c counted borrowed max =>
    cases stepped
    split
    · split <;> apply effect_still <;> rfl
    · apply effect_still <;> rfl
  case swapKey snap c counted borrowed max cur =>
    split at stepped
    · cases stepped
      exact effect_addCount (flips_key rfl rfl) rfl rfl
    · cases stepped
      apply effect_still <;> rfl
  case rejectKey snap counted =>
    cases counted with
    | false =>
      cases stepped
      apply effect_still <;> rfl
    | true => exact effect_drop stepped (flips_user rfl rfl)
  case admitted level =>
    split at stepped
    next empty =>
      subst empty
      cases stepped
      apply effect_still <;> rfl
    · cases stepped
      apply effect_still <;> rfl
  case releaseUser snap level =>
    obtain ⟨user, key⟩ := level
    cases user with
    | false =>
      cases stepped
      apply effect_still <;> rfl
    | true => exact effect_drop stepped (flips_user rfl rfl)
  case releaseKey snap level =>
    obtain ⟨user, key⟩ := level
    cases key with
    | false =>
      cases stepped
      apply effect_still <;> rfl
    | true => exact effect_drop stepped (flips_key rfl rfl)

end

structure Exact (σ : Gate) : Prop extends Copied Place.counter σ where
  exact : ∀ s c, σ.shared.current.counters s = some c →
    σ.shared.counts (s, c) = total (hold s) σ.procs

section

variable {procs : List Call}

section

variable (exactly : Exact ⟨h, procs⟩)

include exactly

theorem Exact.frame {call call' : Call} (found : procs[i]? = some call)
    (same : ∀ s, call'.hold s = call.hold s) (copied : Copied Place.counter ⟨h', procs.set i call'⟩)
    (entry : h'.current.entry = h.current.entry)
    (reading : ∀ s c, c < h.next → h'.counts (s, c) = h.counts (s, c)) :
    Exact ⟨h', procs.set i call'⟩ := by
  refine { copied with exact := fun s c listed => ?_ }
  have before : h.current.counters s = some c := (congrFun entry (.counter s)).symm.trans listed
  rw [total_set found, same s, Int.sub_add_cancel, ← exactly.exact s c before]
  exact reading s c (exactly.known s c before)

theorem Exact.rebuild {op : RebuildOp} {pc pc' : RebuildPc} (inv : Protocol ⟨h, procs⟩)
    (found : procs[i]? = some (.rebuild op pc)) (ordered : orderly ⟨h, procs⟩ (.step i env) = true)
    (stepped : RebuildStep i h pc h' pc') : Exact ⟨h', procs.set i (.rebuild op pc')⟩ := by
  have copied := exactly.toCopied.rebuild inv found stepped
  obtain ⟨old, draft, rfl, rfl, rfl⟩ | ⟨keeps, -⟩ := stepped.drafts (inv.calls i _ found).2.1
  · refine { copied with exact := fun s c listed => ?_ }
    rw [Heap.current_publish] at listed
    rw [total_set found]
    change h.counts (s, c) = total (hold s) procs - 0 + 0
    have copy : ∀ v, h.carried h.current (.counter s) = some v → h.counts (s, c) = v :=
      (exactly.drafts i op _ draft found rfl s c listed).2
    cases earlier : h.current.counters s with
    | none =>
      have free := orderly_publish ordered found earlier (by rw [listed]; simp)
      rw [copy 0 (carried_none earlier),
        total_eq_zero fun call member => by simp [hold, free call member]]
      rfl
    | some o =>
      have value : h.counts (s, o) = total (hold s) procs := exactly.exact s o earlier
      rw [copy _ (carried_some earlier), Int.sub_zero, Int.add_zero]
      exact value
  · exact exactly.frame found (fun _ => rfl) copied keeps.entry fun s => keeps.reading (.counter s)

theorem Exact.deduct {key cost : Int} {pc pc' : DeductPc}
    (found : procs[i]? = some (.deduct key cost pc)) (stepped : DeductStep i h key cost pc h' pc') :
    Exact ⟨h', procs.set i (.deduct key cost pc')⟩ := by
  have unchanged : h'.current.entry = h.current.entry ∧ h'.next = h.next ∧
      h'.counts = h.counts := by
    cases stepped with
    | enter snap => exact ⟨addOps_entry snap h.store 1, rfl, rfl⟩
    | retry snap | leave snap result => exact ⟨addOps_entry snap h.store (-1), rfl, rfl⟩
    | _ => exact ⟨rfl, rfl, rfl⟩
  obtain ⟨entry, next, counts⟩ := unchanged
  have reading (s : Slot) (c : Nat) (_ : c < h.next) : h'.counts (s, c) = h.counts (s, c) := by
    rw [counts]
  exact exactly.frame found (fun _ => rfl)
    (exactly.toCopied.frame entry next.ge reading fun _ _ _ same => nomatch same) entry reading

/-- A request that changes its hold works on the current counter, and no draft has
a copy of it. -/
theorem Exact.request {m : LimitedKey} {pc pc' : RequestPc}
    (found : procs[i]? = some (.request m pc)) (ordered : orderly ⟨h, procs⟩ (.step i env) = true)
    (stepped : stepRequest env h m pc = some (h', pc')) :
    Exact ⟨h', procs.set i (.request m pc')⟩ := by
  obtain ⟨counts, same⟩ := stepRequest_counts stepped
  have current : h'.current = h.current := by rw [same]; rfl
  have next : h'.next = h.next := by rw [same]
  refine ⟨⟨?_, ?_⟩, ?_⟩
  rotate_left 2
  · intro s c listed
    rw [current] at listed
    have value : h.counts (s, c) = total (Call.hold s) procs := exactly.exact s c listed
    rw [total_set found]
    cases stepRequest_effect stepped s with
    | still held kept =>
      have unmoved : (Call.request m pc').hold s = (Call.request m pc).hold s :=
        congrArg (fun held : Bool => if held then (1 : Int) else 0) held
      rw [kept, unmoved, value]
      omega
    | moved d at_ changed count kept =>
      obtain ⟨settled, -⟩ := orderly_request ordered found stepped changed
      rw [at_] at settled
      obtain missing | here := settled
      · exact absurd (listed.symm.trans missing) nofun
      · cases listed.symm.trans here
        rw [count, value]
    | missing absent changed kept =>
      obtain ⟨settled, -⟩ := orderly_request ordered found stepped changed
      rw [absent, or_self] at settled
      exact absurd (listed.symm.trans settled) nofun
  · intro s c listed
    rw [current] at listed
    rw [next]
    exact exactly.known s c listed
  · intro j op rpc draft foundOther held
    obtain ⟨-, same⟩ | ⟨-, foundOther⟩ := set_cases foundOther
    · cases same
    intro s c listed
    obtain ⟨below, copied⟩ := exactly.drafts j op rpc draft foundOther held s c listed
    refine ⟨by rw [next]; exact below, ?_⟩
    rw [current]
    have unmoved (kept : ∀ c, h'.counts (s, c) = h.counts (s, c)) (v : Int)
        (carried : h'.carried h.current (.counter s) = some v) : h'.counts (s, c) = v := by
      rw [kept]
      refine copied v (carried ▸ ?_)
      simp only [Heap.carried, Heap.reading, kept]
    cases stepRequest_effect stepped s with
    | still _ kept | missing _ _ kept => exact unmoved kept
    | moved d _ changed _ _ =>
      obtain ⟨-, uncopied⟩ := orderly_request ordered found stepped changed
      obtain none_yet | shared := uncopied j op rpc draft foundOther held
      · exact absurd (listed.symm.trans none_yet) nofun
      · have here : h.current.entry (.counter s) = some c := shared.symm.trans listed
        exact fun v carried => Option.some.inj ((carried_some here).symm.trans carried)

theorem Exact.step {call call' : Call} (inv : Protocol ⟨h, procs⟩)
    (ordered : orderly ⟨h, procs⟩ (.step i env) = true) (found : procs[i]? = some call)
    (stepped : stepCall quotaEnabled i env h call = some (h', call')) :
    Exact ⟨h', procs.set i call'⟩ := by
  cases stepCall_cases stepped with
  | request acted => exact exactly.request found ordered acted
  | rebuild acted => exact exactly.rebuild inv found ordered acted
  | deduct acted => exact exactly.deduct found acted

end

theorem Exact.start {call : Call} (starts : call.starts = true) (exactly : Exact ⟨h, procs⟩) :
    Exact ⟨h, procs ++ [call]⟩ := by
  have unheld (s : Slot) : call.hold s = 0 := by
    obtain ⟨m, rfl⟩ | ⟨op, rfl⟩ | ⟨key, cost, rfl⟩ := starts_cases starts
    · cases s <;> simp [hold, holds, RequestPc.holds, RequestPc.userHeld, RequestPc.keyHeld]
    · rfl
    · rfl
  refine { exactly.toCopied.start starts with exact := fun s c listed => ?_ }
  rw [total_append, unheld s, Int.add_zero]
  exact exactly.exact s c listed

theorem exact_of_reachable {σ : Gate}
    (reached : Reachable (stepCall quotaEnabled) (fun σ l => orderly σ l = true) newGate σ) :
    Protocol σ ∧ Exact σ := by
  have initial : Exact newGate := { copied_initial with exact := nofun }
  apply reached.invariant ⟨protocol_initial, initial⟩
  · rintro h procs call starts ⟨inv, exactly⟩
    exact ⟨inv.start starts, exactly.start starts⟩
  · rintro h procs i env call h' call' ordered found stepped ⟨inv, exactly⟩
    exact ⟨inv.step found stepped, exactly.step inv ordered found stepped⟩

end

theorem holds_of_idle {call : Call} (idle : call.idle = true) (s : Slot) :
    call.hold s = if call.admittedAt s then 1 else 0 := by
  unfold Call.idle at idle
  split at idle
  case h_9 => cases idle
  all_goals cases s <;> simp [Call.hold, Call.holds, Call.admittedAt, RequestPc.holds,
    RequestPc.userHeld, RequestPc.keyHeld]

/-- In an orderly run, whenever no call is in progress every counter of the current
snapshot is the number of admitted requests that hold its level. -/
theorem counters_exact (quotaEnabled : Bool) (σ : Gate)
    (reached : Reachable (stepCall quotaEnabled) (fun σ l => orderly σ l = true) newGate σ)
    (idle : ∀ call ∈ σ.procs, call.idle = true) (s : Slot) (c : Nat)
    (present : σ.shared.current.counters s = some c) :
    σ.shared.counts (s, c) = σ.procs.countP (admittedAt s) ∧ 0 ≤ σ.shared.counts (s, c) := by
  have count : σ.shared.counts (s, c) = σ.procs.countP (admittedAt s) := by
    rw [(exact_of_reachable reached).2.exact s c present]
    exact total_eq_countP fun call member => holds_of_idle (idle call member) s
  exact ⟨count, count ▸ Int.natCast_nonneg _⟩

def limitedKey : LimitedKey :=
  { keyID := 1, userID := 7, userMaxConc := 2, keyMaxConc := 2 }

/-- A key is added, two requests are admitted, and a reload copies the counters
before one of them is released. -/
def admitAndReload : List (Label Call Env) :=
  [.start (.rebuild (.upsert limitedKey.toKeyMeta) .start)] ++ replicate 7 (.step 0 {}) ++
  [.start (.request limitedKey .start), .start (.request limitedKey .start)] ++
  replicate 6 (.step 1 {}) ++ replicate 6 (.step 2 {}) ++
  [.start (.rebuild (.reload [limitedKey.toKeyMeta]) .start)] ++ replicate 9 (.step 3 {}) ++
  replicate 3 (.step 2 {})

theorem counters_exact_reloaded :
    ∃ σ : Gate, σ.shared.store = 2 ∧ ∃ c, σ.shared.current.counters (.key 1) = some c ∧
      σ.procs.countP (admittedAt (.key 1)) = 1 ∧ σ.shared.counts (.key 1, c) = 1 := by
  have ran : (run (stepCall true) orderly newGate admitAndReload).map (fun σ =>
      (σ.procs.all idle, σ.shared.store, σ.shared.current.counters (.key 1),
        σ.procs.countP (admittedAt (.key 1)))) = some (true, 2, some 3, 1) := by
    decide +kernel
  obtain ⟨σ, ran, found⟩ := Option.map_eq_some_iff.mp ran
  simp only [Prod.mk.injEq, all_eq_true] at found
  obtain ⟨idle, store, present, admitted⟩ := found
  have exactly := counters_exact true σ (reachable_of_run ran) idle (.key 1) 3 present
  exact ⟨σ, store, 3, present, admitted, by rw [exactly.1, admitted]; rfl⟩

/-- A request loads the snapshot, a whole reload copies the counter at zero, and
then the request counts on the old one; its release counts down on the new one. -/
def countOnOld : List (Label Call Env) :=
  [.start (.rebuild (.upsert limitedKey.toKeyMeta) .start)] ++ replicate 7 (.step 0 {}) ++
  [.start (.request limitedKey .start), .step 1 {}] ++
  [.start (.rebuild (.reload [limitedKey.toKeyMeta]) .start)] ++ replicate 9 (.step 2 {}) ++
  replicate 8 (.step 1 {})

theorem counter_negative :
    ∃ σ : Gate, Reachable (stepCall true) anyOrder newGate σ ∧
      (∀ call ∈ σ.procs, call.idle = true) ∧
      ∃ c, σ.shared.current.counters (.user 7) = some c ∧ σ.shared.counts (.user 7, c) = -1 ∧
        σ.procs.countP (admittedAt (.user 7)) = 0 := by
  have ran : (run (stepCall true) (fun _ l => legal l) newGate countOnOld).map (fun σ =>
      (σ.procs.all idle, σ.shared.current.counters (.user 7), σ.shared.counts (.user 7, 2),
        σ.procs.countP (admittedAt (.user 7)))) = some (true, some 2, -1, 0) := by
    decide +kernel
  obtain ⟨σ, ran, found⟩ := Option.map_eq_some_iff.mp ran
  simp only [Prod.mk.injEq, all_eq_true] at found
  obtain ⟨idle, present, count, admitted⟩ := found
  exact ⟨σ, reachable_of_run ran, idle, 2, present, count, admitted⟩

end C3Api.Proxy.GateSteps
