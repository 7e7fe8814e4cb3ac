import C3Api.Proxy.GateProtocol

/-!
# The concurrency limit of a key

`acquire` takes a key's counter up to this instance's share of the limit, and up
to the whole limit when the cluster view lets it borrow. While nothing rebuilds
the snapshot both are bounded by the limit, whatever the instance count and the
view are at each read.
-/

namespace C3Api.Proxy.GateSteps

open Machine Interleaving Option

def Heap.keyCount (h : Heap) (key : Int) : Option Int :=
  (h.current.counters (.key key)).map fun c => h.counts (.key key, c)

/-- Only requests run, and those of `key` carry one limit. -/
def oneLimit (key limit : Int) : Label Call Env → Bool
  | .start (.request m .start) => m.keyID != key || m.keyMaxConc == limit
  | .start _ => false
  | .step _ _ => true

/-- As `oneLimit`, where every read of the instance count returns one. -/
def oneInstance (key limit : Int) : Label Call Env → Bool
  | .step _ env => instancesN env.provider == 1
  | label => oneLimit key limit label

def whileLimited (key limit : Int) (_ : Gate) (l : Label Call Env) : Prop :=
  oneLimit key limit l = true

def whileAlone (key limit : Int) (_ : Gate) (l : Label Call Env) : Prop :=
  oneInstance key limit l = true

def RequestPc.acquiring : RequestPc → Bool
  | .countUser _ | .checkUser _ _ | .borrowUser _ _ | .rejectUser _ | .checkKey _ _
  | .loadKey _ _ _ _ _ | .swapKey _ _ _ _ _ _ | .borrowKey _ _ _ | .rejectKey _ _ => true
  | _ => false

section

variable {limit n : Int}

theorem concShare_le (positive : 0 < limit) (fits : Fits limit) (instances : 0 < n) :
    concShare limit n ≤ limit := by
  unfold concShare
  rw [div64_of_nonneg fits positive.le instances]
  split
  · exact Int.ediv_le_self n positive.le
  · exact positive

theorem concShare_one (positive : 0 < limit) (fits : Fits limit) : concShare limit 1 = limit := by
  unfold concShare
  rw [div64_of_nonneg fits positive.le one_pos, Int.ediv_one, if_pos positive]

end

variable (env : Env) (h : Heap) (m : LimitedKey) in
inductive RequestStep : RequestPc → Heap → RequestPc → Prop
  | load : RequestStep .start h (.countUser h.store)
  | unknownUser (snap : Nat) : RequestStep (.countUser snap) h (.checkKey snap false)
  | countLimited (snap c : Nat) :
    RequestStep (.countUser snap) (h.addCount (.user m.userID) c 1) (.checkUser snap c)
  | countUnlimited (snap c : Nat) :
    RequestStep (.countUser snap) (h.addCount (.user m.userID) c 1) (.checkKey snap true)
  | aboveShare (snap c : Nat) : RequestStep (.checkUser snap c) h (.borrowUser snap c)
  | withinShare (snap c : Nat) : RequestStep (.checkUser snap c) h (.checkKey snap true)
  | borrowUser (snap c : Nat) : RequestStep (.borrowUser snap c) h (.checkKey snap true)
  | refuseUser (snap c : Nat) : RequestStep (.borrowUser snap c) h (.rejectUser c)
  | rejectUser (c : Nat) :
    RequestStep (.rejectUser c) (h.addCount (.user m.userID) c (-1)) .rejected
  | unlimitedKey (snap : Nat) (counted : Bool) :
    RequestStep (.checkKey snap counted) h (.admitted ⟨counted, false⟩)
  | checkKey (snap c : Nat) (counted : Bool)
    (entry : (h.snaps snap).counters (.key m.keyID) = some c) :
    RequestStep (.checkKey snap counted) h
      (.loadKey snap c counted false (concShare m.keyMaxConc (instancesN env.provider)))
  | fullShare (snap c : Nat) (counted : Bool) (max : Int)
    (full : max ≤ h.counts (.key m.keyID, c)) :
    RequestStep (.loadKey snap c counted false max) h (.borrowKey snap c counted)
  | fullLimit (snap c : Nat) (counted : Bool) (max : Int) :
    RequestStep (.loadKey snap c counted true max) h (.rejectKey snap counted)
  | readKey (snap c : Nat) (counted borrowed : Bool) (max : Int)
    (room : h.counts (.key m.keyID, c) < max) :
    RequestStep (.loadKey snap c counted borrowed max) h
      (.swapKey snap c counted borrowed max (h.counts (.key m.keyID, c)))
  | swapKey (snap c : Nat) (counted borrowed : Bool) (max : Int) :
    RequestStep (.swapKey snap c counted borrowed max (h.counts (.key m.keyID, c)))
      (h.addCount (.key m.keyID) c 1) (.admitted ⟨counted, true⟩)
  | lostSwap (snap c : Nat) (counted borrowed : Bool) (max cur : Int) :
    RequestStep (.swapKey snap c counted borrowed max cur) h
      (.loadKey snap c counted borrowed max)
  | borrowKey (snap c : Nat) (counted : Bool) :
    RequestStep (.borrowKey snap c counted) h (.loadKey snap c counted true m.keyMaxConc)
  | refuseKey (snap c : Nat) (counted : Bool) :
    RequestStep (.borrowKey snap c counted) h (.rejectKey snap counted)
  | rejectKey (snap : Nat) (counted : Bool) :
    RequestStep (.rejectKey snap counted) h .rejected
  | rollback (snap c : Nat) (counted : Bool) :
    RequestStep (.rejectKey snap counted) (h.addCount (.user m.userID) c (-1)) .rejected
  | unheld (level : Level) : RequestStep (.admitted level) h .released
  | release (level : Level) :
    RequestStep (.admitted level) h (.releaseUser h.store level)
  | keepUser (snap : Nat) (level : Level) :
    RequestStep (.releaseUser snap level) h (.releaseKey snap level)
  | releaseUser (snap c : Nat) (level : Level) :
    RequestStep (.releaseUser snap level) (h.addCount (.user m.userID) c (-1))
      (.releaseKey snap level)
  | keepKey (snap : Nat) (level : Level) :
    RequestStep (.releaseKey snap level) h .released
  | releaseKey (snap c : Nat) (level : Level) :
    RequestStep (.releaseKey snap level) (h.addCount (.key m.keyID) c (-1)) .released

variable {env : Env} {key limit : Int}

section

variable {h h' : Heap} {m : LimitedKey} {pc pc' : RequestPc}

theorem stepRequest_cases (stepped : stepRequest env h m pc = some (h', pc')) :
    RequestStep env h m pc h' pc' := by
  cases pc <;> simp only [stepRequest, reduceCtorEq] at stepped
  case start =>
    cases stepped
    exact .load
  case countUser snap =>
    split at stepped
    · cases stepped
      exact .unknownUser snap
    · split at stepped <;> cases stepped
      · exact .countLimited snap _
      · exact .countUnlimited snap _
  case checkUser snap c =>
    split at stepped <;> cases stepped
    · exact .aboveShare snap c
    · exact .withinShare snap c
  case borrowUser snap c =>
    split at stepped <;> cases stepped
    · exact .borrowUser snap c
    · exact .refuseUser snap c
  case rejectUser c =>
    cases stepped
    exact .rejectUser c
  case checkKey snap counted =>
    split at stepped
    · split at stepped <;> cases stepped
      · exact .unlimitedKey snap counted
      · exact .checkKey snap _ counted ‹_›
    · cases stepped
      exact .unlimitedKey snap counted
  case loadKey snap c counted borrowed max =>
    split at stepped
    · cases borrowed <;> cases stepped
      · exact .fullShare snap c counted max ‹_›
      · exact .fullLimit snap c counted max
    · cases stepped
      exact .readKey snap c counted borrowed max (not_le.mp ‹_›)
  case swapKey snap c counted borrowed max cur =>
    split at stepped
    next unchanged =>
      cases stepped
      subst unchanged
      exact .swapKey snap c counted borrowed max
    · cases stepped
      exact .lostSwap snap c counted borrowed max cur
  case borrowKey snap c counted =>
    split at stepped <;> cases stepped
    · exact .borrowKey snap c counted
    · exact .refuseKey snap c counted
  case rejectKey snap counted =>
    split at stepped
    · split at stepped <;> cases stepped
      · exact .rejectKey snap counted
      · exact .rollback snap _ counted
    · cases stepped
      exact .rejectKey snap counted
  case admitted level =>
    split at stepped <;> cases stepped
    · exact .unheld level
    · exact .release level
  case releaseUser snap level =>
    split at stepped
    · split at stepped <;> cases stepped
      · exact .keepUser snap level
      · exact .releaseUser snap _ level
    · cases stepped
      exact .keepUser snap level
  case releaseKey snap level =>
    split at stepped
    · split at stepped <;> cases stepped
      · exact .keepKey snap level
      · exact .releaseKey snap _ level
    · cases stepped
      exact .keepKey snap level

theorem addCount_le {n : Int} (lowers : n ≤ 0) (s t : Slot) (c d : Nat) :
    (h.addCount s c n).counts (t, d) ≤ h.counts (t, d) := by
  by_cases same : (t, d) = (s, c)
  · rw [same]
    simpa [Heap.addCount] using lowers
  · exact (Function.update_of_ne same ..).le

/-- The bound of a `casInc` is at most the limit, and it swaps only below its
bound. -/
def RequestPc.Capped (limit : Int) : RequestPc → Prop
  | .loadKey _ _ _ _ max => max ≤ limit
  | .swapKey _ _ _ _ max cur => max ≤ limit ∧ cur < max
  | _ => True

variable (stepped : RequestStep env h m pc h' pc')

include stepped

/-- Only a swap of one of the key's requests raises its counter, and only below
the limit. -/
theorem RequestStep.within (capped : m.keyID = key → pc.Capped limit) (c : Nat)
    (within : h.counts (.key key, c) ≤ limit) : h'.counts (.key key, c) ≤ limit := by
  cases stepped with
  | countLimited | countUnlimited =>
    exact within
  | swapKey snap d counted borrowed max =>
    by_cases same : (Slot.key key, c) = (Slot.key m.keyID, d)
    · cases same
      obtain ⟨bounded, below⟩ := capped rfl
      simp only [Heap.addCount, Function.update_self]
      omega
    · exact (Function.update_of_ne same _ h.counts).trans_le within
  | rejectUser | rollback | releaseUser | releaseKey =>
    exact (addCount_le (by decide) ..).trans within
  | _ => exact within

theorem RequestStep.capped (positive : 0 < limit) (fits : Fits limit)
    (limited : m.keyMaxConc = limit) (capped : pc.Capped limit) : pc'.Capped limit := by
  cases stepped with
  | checkKey =>
    rw [limited]
    exact concShare_le positive fits (instancesN_pos _)
  | readKey snap c counted borrowed max room => exact ⟨capped, room⟩
  | lostSwap => exact capped.1
  | borrowKey => exact limited.le
  | _ => trivial

/-- The counter that the first `casInc` of a lone instance's request works on, and
its bound; `h` is the heap before any request. -/
def RequestPc.Placed (h : Heap) (key limit : Int) : RequestPc → Prop
  | .countUser snap | .checkUser snap _ | .borrowUser snap _ | .checkKey snap _ => snap = h.store
  | .loadKey _ c _ borrowed max | .swapKey _ c _ borrowed max _ =>
    borrowed = false → h.current.counters (.key key) = some c ∧ max = limit
  | _ => True

theorem RequestStep.placed {h₀ : Heap} (store : h.store = h₀.store) (snaps : h.snaps = h₀.snaps)
    (positive : 0 < limit) (fits : Fits limit) (limited : m.keyMaxConc = limit)
    (alone : instancesN env.provider = 1) (placed : pc.Placed h₀ m.keyID limit) :
    pc'.Placed h₀ m.keyID limit := by
  cases stepped with
  | load => exact store
  | unknownUser | countLimited | countUnlimited | aboveShare | withinShare | borrowUser =>
    exact placed
  | checkKey snap c counted entry =>
    obtain rfl : snap = h₀.store := placed
    rw [snaps] at entry
    rw [limited, alone, concShare_one positive fits]
    exact fun _ => ⟨entry, rfl⟩
  | readKey | lostSwap => exact placed
  | borrowKey => nofun
  | _ => trivial

def RequestPc.refusedShare : RequestPc → Bool
  | .borrowKey _ _ _ | .loadKey _ _ _ true _ | .swapKey _ _ _ true _ _ | .rejectKey _ _ => true
  | _ => false

theorem RequestStep.refused (refused : pc'.refusedShare = true) :
    pc.refusedShare = true ∨ ∃ snap c counted max,
      pc = .loadKey snap c counted false max ∧ max ≤ h.counts (.key m.keyID, c) := by
  cases stepped with
  | fullShare snap c counted max full => exact .inr ⟨snap, c, counted, max, rfl, full⟩
  | fullLimit | borrowKey | refuseKey => exact .inl rfl
  | readKey snap c counted borrowed max | lostSwap snap c counted borrowed max cur =>
    cases borrowed with
    | true => exact .inl rfl
    | false => cases refused
  | _ => cases refused

end

def Call.Limited (key limit : Int) : Call → Prop
  | .request m pc => m.keyID = key → m.keyMaxConc = limit ∧ pc.Capped limit
  | _ => False

def Call.Placed (h : Heap) (key limit : Int) : Call → Prop
  | .request m pc => m.keyID = key → pc.Placed h key limit
  | _ => False

/-- What requests keep while nothing rebuilds the snapshot of `h`. -/
structure Limited (h : Heap) (key limit : Int) (σ : Gate) : Prop where
  snaps : σ.shared.snaps = h.snaps
  store : σ.shared.store = h.store
  within : ∀ n, σ.shared.keyCount key = some n → n ≤ limit
  calls : ∀ (i : Nat) (call : Call), σ.procs[i]? = some call → call.Limited key limit

section

variable {quotaEnabled : Bool} {i : Nat} {h h₀ h' : Heap} {procs : List Call}
  {call call' : Call} {σ : Gate}

theorem oneLimit_start (permitted : oneLimit key limit (.start call) = true) :
    ∃ m, call = .request m .start ∧ (m.keyID = key → m.keyMaxConc = limit) := by
  unfold oneLimit at permitted
  split at permitted
  next m started =>
    cases started
    refine ⟨m, rfl, fun keyed => ?_⟩
    simpa [keyed] using permitted
  · cases permitted
  next started => cases started

theorem oneLimit_of_oneInstance {l : Label Call Env} (permitted : oneInstance key limit l = true) :
    oneLimit key limit l = true := by
  cases l with
  | start call => exact permitted
  | step i env => rfl

section

variable (inv : Limited h₀ key limit ⟨h, procs⟩)

include inv

theorem Limited.start (permitted : oneLimit key limit (.start call) = true) :
    Limited h₀ key limit ⟨h, procs ++ [call]⟩ := by
  obtain ⟨m, rfl, limited⟩ := oneLimit_start permitted
  exact ⟨inv.snaps, inv.store, inv.within,
    each_append (fun keyed => ⟨limited keyed, trivial⟩) inv.calls⟩

theorem Limited.request (found : procs[i]? = some call)
    (stepped : stepCall quotaEnabled i env h call = some (h', call')) :
    ∃ m pc pc', call = .request m pc ∧ call' = .request m pc' ∧
      stepRequest env h m pc = some (h', pc') ∧
      (m.keyID = key → m.keyMaxConc = limit ∧ pc.Capped limit) := by
  have known := inv.calls i call found
  cases stepCall_cases stepped with
  | request acted => exact ⟨_, _, _, rfl, rfl, acted, known⟩
  | rebuild | deduct => exact known.elim

theorem Limited.step (positive : 0 < limit) (fits : Fits limit) (found : procs[i]? = some call)
    (stepped : stepCall quotaEnabled i env h call = some (h', call')) :
    Limited h₀ key limit ⟨h', procs.set i call'⟩ := by
  obtain ⟨m, pc, pc', rfl, rfl, acted, known⟩ := inv.request found stepped
  obtain ⟨counts, rfl⟩ := stepRequest_counts acted
  have step := stepRequest_cases acted
  refine ⟨inv.snaps, inv.store, ?_, each_set ?_ fun j other _ => inv.calls j other⟩
  · intro n counted
    obtain ⟨c, present, rfl⟩ := map_eq_some_iff.mp counted
    apply step.within fun keyed => (known keyed).2
    exact inv.within _ (map_eq_some_iff.mpr ⟨c, present, rfl⟩)
  · intro keyed
    obtain ⟨limited, capped⟩ := known keyed
    exact ⟨limited, step.capped positive fits limited capped⟩

end

variable (positive : 0 < limit) (fits : Fits limit)
variable (within : ∀ n, h.keyCount key = some n → n ≤ limit)

include positive fits within

theorem limited_of_reachable
    (reached : Reachable (stepCall quotaEnabled) (whileLimited key limit) ⟨h, []⟩ σ) :
    Limited h key limit σ := by
  apply reached.invariant
  · exact ⟨rfl, rfl, within, by simp⟩
  · intro _ _ _ permitted inv
    exact inv.start permitted
  · intro _ _ _ _ _ _ _ _ found stepped inv
    exact inv.step positive fits found stepped

variable (reached : Reachable (stepCall quotaEnabled) (whileAlone key limit) ⟨h, []⟩ σ)

include reached

theorem placed_of_reachable :
    ∀ (i : Nat) (call : Call), σ.procs[i]? = some call → call.Placed h key limit := by
  suffices Limited h key limit σ ∧
      ∀ (i : Nat) (call : Call), σ.procs[i]? = some call → call.Placed h key limit from this.2
  apply reached.invariant
  · exact ⟨⟨rfl, rfl, within, by simp⟩, by simp⟩
  · intro _ _ call permitted inv
    refine ⟨inv.1.start permitted, each_append ?_ inv.2⟩
    obtain ⟨m, rfl, _⟩ := oneLimit_start permitted
    exact fun _ => trivial
  · intro g procs i env call g' call' permitted found stepped inv
    refine ⟨inv.1.step positive fits found stepped, each_set ?_ fun j other _ => inv.2 j other⟩
    obtain ⟨m, pc, pc', rfl, rfl, acted, known⟩ := inv.1.request found stepped
    rintro rfl
    exact (stepRequest_cases acted).placed inv.1.store inv.1.snaps positive fits (known rfl).1
      (beq_iff_eq.mp permitted) (inv.2 i _ found rfl)

/-- The first `casInc` of a lone instance's request fails at a moment when the
counter is at the limit. -/
theorem moment_of_refusal {m : LimitedKey} {pc : RequestPc}
    (found : σ.procs[i]? = some (.request m pc)) (keyed : m.keyID = key)
    (refused : pc.refusedShare = true) :
    ∃ (σ₁ : Gate) (pc₁ : RequestPc),
      Reachable (stepCall quotaEnabled) (whileAlone key limit) ⟨h, []⟩ σ₁ ∧
      Reachable (stepCall quotaEnabled) (whileAlone key limit) σ₁ σ ∧
      σ₁.procs[i]? = some (.request m pc₁) ∧ pc₁.acquiring = true ∧
      σ₁.shared.keyCount key = some limit := by
  have starts (σ : Gate) (p : Call) (permitted : whileAlone key limit σ (.start p)) :
      ¬ ∃ pc, p = .request m pc ∧ pc.refusedShare = true := by
    obtain ⟨m, rfl, _⟩ := oneLimit_start (oneLimit_of_oneInstance permitted)
    rintro ⟨pc, same, refused⟩
    cases same
    cases refused
  obtain ⟨σ₁, σ₂, env, q, _, first, permitted, present, lacked, ⟨pc', rfl, gained⟩, acted, next,
    later⟩ := reached.caused _ rfl starts found ⟨pc, rfl, refused⟩
  have inv := limited_of_reachable positive fits within
    (first.mono fun _ _ permitted => oneLimit_of_oneInstance permitted)
  obtain ⟨m, pc₁, pc', rfl, same, acted, known⟩ := inv.request present acted
  cases same
  obtain already | ⟨snap, c, counted, max, rfl, full⟩ := (stepRequest_cases acted).refused gained
  · exact (lacked ⟨pc₁, rfl, already⟩).elim
  obtain ⟨entry, rfl⟩ := placed_of_reachable positive fits within first i _ present keyed rfl
  have current : σ₁.shared.current = h.current := by
    unfold Heap.current
    rw [inv.snaps, inv.store]
  have counter : σ₁.shared.keyCount key = some (σ₁.shared.counts (.key key, c)) := by
    unfold Heap.keyCount
    rw [current, entry]
    rfl
  have atMost := inv.within _ counter
  rw [keyed] at full
  refine ⟨σ₁, _, first, .trans (.tail .refl permitted next) later, present, rfl, ?_⟩
  rw [counter, le_antisymm atMost full]

end

/-- While no rebuild runs and the requests of a key carry one limit, the key's
counter stays within it whatever the requests read of the instance count and the
cluster view. An instance that is alone refuses a request for the key's sake only
when the counter was at the limit during the request's `acquire`. -/
theorem key_limit_holds (quotaEnabled : Bool) (h : Heap) (key limit : Int) (positive : 0 < limit)
    (fits : Fits limit) (within : ∀ n, h.keyCount key = some n → n ≤ limit) :
    (∀ σ, Reachable (stepCall quotaEnabled) (whileLimited key limit) ⟨h, []⟩ σ →
      ∀ n, σ.shared.keyCount key = some n → n ≤ limit) ∧
    ∀ σ, Reachable (stepCall quotaEnabled) (whileAlone key limit) ⟨h, []⟩ σ →
      ∀ (i : Nat) (m : LimitedKey) (snap : Nat) (counted : Bool), m.keyID = key →
        σ.procs[i]? = some (.request m (.rejectKey snap counted)) → ∃ (σ₁ : Gate) (pc : RequestPc),
          Reachable (stepCall quotaEnabled) (whileAlone key limit) ⟨h, []⟩ σ₁ ∧
          Reachable (stepCall quotaEnabled) (whileAlone key limit) σ₁ σ ∧
          σ₁.procs[i]? = some (.request m pc) ∧ pc.acquiring = true ∧
          σ₁.shared.keyCount key = some limit := by
  constructor
  · intro σ reached
    exact (limited_of_reachable positive fits within reached).within
  · intro σ reached i m snap counted keyed found
    exact moment_of_refusal positive fits within reached found keyed rfl

def oneKeyHeap : Heap :=
  { snaps := fun _ => { counters := fun s => if s = .key 1 then some 0 else none }, next := 1 }

def oneAtATime : LimitedKey := { keyID := 1, userID := 7, keyMaxConc := 1 }

/-- Two requests under a limit of one: the second finds the counter full. -/
def refuseSecond : List (Label Call Env) :=
  [.start (.request oneAtATime .start)] ++ List.replicate 5 (.step 0 {}) ++
  [.start (.request oneAtATime .start)] ++ List.replicate 5 (.step 1 {})

def Call.asRequest : Call → Option (LimitedKey × RequestPc)
  | .request m pc => some (m, pc)
  | _ => none

theorem Call.eq_of_asRequest {call : Call} {m : LimitedKey} {pc : RequestPc}
    (same : call.asRequest = some (m, pc)) : call = .request m pc := by
  cases call <;> cases same
  rfl

theorem key_limit_holds_refused :
    ∃ (σ σ₁ : Gate) (pc : RequestPc),
      σ.procs[1]? = some (.request oneAtATime (.rejectKey 0 false)) ∧
      (∀ n, σ.shared.keyCount 1 = some n → n ≤ 1) ∧
      σ₁.procs[1]? = some (.request oneAtATime pc) ∧ pc.acquiring = true ∧
      σ₁.shared.keyCount 1 = some 1 := by
  have ran : (run (stepCall true) (fun _ => oneInstance 1 1) ⟨oneKeyHeap, []⟩ refuseSecond).any
      (fun σ => (σ.procs[1]?.bind Call.asRequest) == some (oneAtATime, .rejectKey 0 false)) =
        true := by
    decide +kernel
  obtain ⟨σ, ran, second⟩ := (any_eq_true _ _).mp ran
  obtain ⟨call, found, refused⟩ := bind_eq_some_iff.mp (beq_iff_eq.mp second)
  cases Call.eq_of_asRequest refused
  have reached : Reachable (stepCall true) (whileAlone 1 1) ⟨oneKeyHeap, []⟩ σ :=
    reachable_of_run ran
  have limited : Reachable (stepCall true) (whileLimited 1 1) ⟨oneKeyHeap, []⟩ σ :=
    reached.mono fun _ _ permitted => oneLimit_of_oneInstance permitted
  obtain ⟨bounded, moment⟩ := key_limit_holds true oneKeyHeap 1 1 (by decide) (by decide)
    (by decide)
  obtain ⟨σ₁, pc, _, _, present, acquiring, full⟩ :=
    moment σ reached 1 oneAtATime 0 false rfl found
  exact ⟨σ, σ₁, pc, found, bounded σ limited, present, acquiring, full⟩

end C3Api.Proxy.GateSteps
