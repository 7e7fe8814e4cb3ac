import C3Api.Proxy.GateSteps

/-!
# How a snapshot of the gate is retired

A deduction announces itself on the snapshot it loaded and checks that this
snapshot is neither retiring nor replaced; a rebuild marks the snapshot as
retiring and waits until nobody is announced there. So while a rebuild is past
its drain, no deduction is between its checks and its return.
-/

namespace C3Api.Proxy.GateSteps

open Machine Interleaving Call Heap Option

/-- The snapshot a deduction has loaded. -/
def DeductPc.loaded : DeductPc → Option Nat
  | .enter snap | .checkRetiring snap | .checkStore snap | .add snap | .retry snap
  | .leave snap _ => some snap
  | _ => none

/-- The snapshot whose `quotaOps` counts the deduction. -/
def DeductPc.inside : DeductPc → Option Nat
  | .checkRetiring snap | .checkStore snap | .add snap | .retry snap | .leave snap _ => some snap
  | _ => none

/-- The snapshot that the deduction has seen not retiring. -/
def DeductPc.accepted : DeductPc → Option Nat
  | .checkStore snap | .add snap | .leave snap _ => some snap
  | _ => none

/-- The snapshot that passed both checks of the deduction. -/
def DeductPc.committed : DeductPc → Option Nat
  | .add snap | .leave snap _ => some snap
  | _ => none

def RebuildPc.critical : RebuildPc → Bool
  | .start | .done => false
  | _ => true

def RebuildPc.old : RebuildPc → Option Nat
  | .flag old | .drain old | .copy old _ _ | .assemble old | .publish old _ => some old
  | _ => none

def RebuildPc.flagged : RebuildPc → Bool
  | .drain _ | .copy _ _ _ | .assemble _ | .publish _ _ => true
  | _ => false

/-- The rebuild has seen nobody announced on the old snapshot. -/
def RebuildPc.drained : RebuildPc → Bool
  | .copy _ _ _ | .assemble _ | .publish _ _ => true
  | _ => false

def RebuildPc.draft : RebuildPc → Option Snapshot
  | .copy _ draft _ | .publish _ draft => some draft
  | _ => none

def Call.inside (snap : Nat) : Call → Int
  | .deduct _ _ pc => if pc.inside = some snap then 1 else 0
  | _ => 0

def Call.accepted : Call → Option Nat
  | .deduct _ _ pc => pc.accepted
  | _ => none

def Call.drained : Call → Bool
  | .rebuild _ pc => pc.drained
  | _ => false

def Call.Ok (h : Heap) (i : Nat) : Call → Prop
  | .request _ _ => True
  | .rebuild _ pc =>
    (pc.critical = true → h.snapshotMu = some i) ∧ (∀ old, pc.old = some old → old = h.store) ∧
      (pc.flagged = true → h.current.quotaRetiring = true) ∧
      ∀ draft, pc.draft = some draft → draft.quotaOps = 0
  | .deduct _ _ pc =>
    (∀ snap, pc.loaded = some snap → snap < h.nextSnap) ∧
      ∀ snap, pc.committed = some snap → snap = h.store

structure Protocol (σ : Gate) : Prop where
  stored : σ.shared.store < σ.shared.nextSnap
  calls : ∀ (i : Nat) (call : Call), σ.procs[i]? = some call → call.Ok σ.shared i
  ops : ∀ snap, (σ.shared.snaps snap).quotaOps = total (inside snap) σ.procs
  exclusive : ∀ (i j : Nat) (call other : Call), σ.procs[i]? = some call →
    σ.procs[j]? = some other → call.drained = true → other.accepted ≠ some σ.shared.store

/-- The parts of the heap that only a rebuild's lock, publication and unlock move;
a retiring mark is never taken back. -/
structure Heap.Frame (h h' : Heap) : Prop where
  store : h'.store = h.store
  nextSnap : h'.nextSnap = h.nextSnap
  snapshotMu : h'.snapshotMu = h.snapshotMu
  retiring : ∀ snap, (h.snaps snap).quotaRetiring = true → (h'.snaps snap).quotaRetiring = true

variable {quotaEnabled : Bool} {i : Nat} {env : Env} {h h' : Heap}

section

theorem Heap.Frame.refl (h : Heap) : h.Frame h := ⟨rfl, rfl, rfl, fun _ marked => marked⟩

theorem Call.Ok.frame {call : Call} (same : h.Frame h') (ok : call.Ok h i) : call.Ok h' i := by
  cases call with
  | request m pc => trivial
  | rebuild op pc =>
    obtain ⟨owns, latest, marked, unused⟩ := ok
    refine ⟨fun critical => same.snapshotMu.trans (owns critical), ?_, ?_, unused⟩
    · intro old held
      exact (latest old held).trans same.store.symm
    · intro flagged
      unfold current
      rw [same.store]
      exact same.retiring _ (marked flagged)
  | deduct key cost pc =>
    obtain ⟨known, committed⟩ := ok
    refine ⟨fun snap loaded => ?_, fun snap passed => (committed snap passed).trans same.store.symm⟩
    rw [same.nextSnap]
    exact known snap loaded

variable (snap other : Nat) (n : Int)

@[simp] theorem addOps_quotaOps :
    ((h.addOps snap n).snaps other).quotaOps =
      (h.snaps other).quotaOps + if snap = other then n else 0 := by
  by_cases same : other = snap
  · subst same
    simp [addOps]
  · simp [addOps, same, Ne.symm same]

theorem addOps_entry : ((h.addOps snap n).snaps other).entry = (h.snaps other).entry :=
  update_part snap other Snapshot.entry (funext fun p => by cases p <;> rfl)

theorem addOps_frame : h.Frame (h.addOps snap n) := by
  refine ⟨rfl, rfl, rfl, fun other marked => ?_⟩
  have kept : ((h.addOps snap n).snaps other).quotaRetiring = (h.snaps other).quotaRetiring :=
    update_part snap other Snapshot.quotaRetiring rfl
  exact kept.trans marked

theorem stepRequest_counts {m : LimitedKey} {pc pc' : RequestPc}
    (stepped : stepRequest env h m pc = some (h', pc')) :
    ∃ counts, h' = { h with counts := counts } := by
  cases pc <;> simp only [stepRequest] at stepped <;> (try split at stepped) <;>
    (try split at stepped) <;> cases stepped <;> exact ⟨_, rfl⟩

section

variable {key cost : Int} {pc pc' : DeductPc}

variable (i h key cost) in
inductive DeductStep : DeductPc → Heap → DeductPc → Prop
  | refuse : DeductStep .start h (.returned 0)
  | begin : DeductStep .start h .load
  | load : DeductStep .load h (.enter h.store)
  | enter (snap : Nat) :
    DeductStep (.enter snap) (h.addOps snap 1) (.checkRetiring snap)
  | retiring (snap : Nat) :
    DeductStep (.checkRetiring snap) h (.retry snap)
  | active (snap : Nat) (unmarked : (h.snaps snap).quotaRetiring = false) :
    DeductStep (.checkRetiring snap) h (.checkStore snap)
  | replaced (snap : Nat) :
    DeductStep (.checkStore snap) h (.retry snap)
  | current : DeductStep (.checkStore h.store) h (.add h.store)
  | absent (snap : Nat) :
    DeductStep (.add snap) h (.leave snap 0)
  | add (snap c : Nat) (entry : (h.snaps snap).quotas key = some c) :
    DeductStep (.add snap) (h.deduct i key cost c)
      (.leave snap cost)
  | retry (snap : Nat) :
    DeductStep (.retry snap) (h.addOps snap (-1)) .load
  | leave (snap : Nat) (result : Int) :
    DeductStep (.leave snap result) (h.addOps snap (-1))
      (.returned result)

theorem stepDeduct_cases (stepped : stepDeduct quotaEnabled i h key cost pc = some (h', pc')) :
    DeductStep i h key cost pc h' pc' := by
  cases pc <;> simp only [stepDeduct, reduceCtorEq] at stepped
  case start =>
    split at stepped
    · cases stepped
      exact .refuse
    · cases stepped
      exact .begin
  case load =>
    cases stepped
    exact .load
  case enter snap =>
    cases stepped
    exact .enter snap
  case checkRetiring snap =>
    split at stepped
    · cases stepped
      exact .retiring snap
    next unmarked =>
      cases stepped
      exact .active snap (by simpa using unmarked)
  case checkStore snap =>
    split at stepped
    next same =>
      cases stepped
      subst same
      exact .current
    · cases stepped
      exact .replaced snap
  case add snap =>
    split at stepped
    · cases stepped
      exact .absent snap
    next c entry =>
      cases stepped
      exact .add snap c entry
  case retry snap =>
    cases stepped
    exact .retry snap
  case leave snap result =>
    cases stepped
    exact .leave snap result

variable (stepped : DeductStep i h key cost pc h' pc')

include stepped

theorem DeductStep.frame : h.Frame h' := by
  cases stepped with
  | enter snap => exact addOps_frame snap 1
  | add snap c entry => exact ⟨rfl, rfl, rfl, fun _ marked => marked⟩
  | retry snap | leave snap result => exact addOps_frame snap (-1)
  | _ => exact .refl h

theorem DeductStep.ops (snap : Nat) :
    (h'.snaps snap).quotaOps = (h.snaps snap).quotaOps - (deduct key cost pc).inside snap +
        (deduct key cost pc').inside snap := by
  cases stepped <;> simp only [inside, DeductPc.inside, Heap.deduct, addOps_quotaOps,
    some.injEq, reduceCtorEq, if_false] <;> omega

theorem DeductStep.ok (stored : h.store < h.nextSnap) (ok : (deduct key cost pc).Ok h i) :
    (deduct key cost pc').Ok h i := by
  obtain ⟨known, committed⟩ := ok
  cases stepped with
  | load => exact ⟨fun snap loaded => by cases loaded; exact stored, nofun⟩
  | enter snap | retiring snap | active snap unmarked | replaced snap => exact ⟨known, nofun⟩
  | current => exact ⟨known, fun snap passed => by cases passed; rfl⟩
  | absent snap | add snap c entry => exact ⟨known, committed⟩
  | _ => exact ⟨nofun, nofun⟩

theorem DeductStep.accepted {snap : Nat} (accepted : pc'.accepted = some snap) :
    pc.accepted = some snap ∨ (h.snaps snap).quotaRetiring = false := by
  cases stepped with
  | active snap unmarked =>
    cases accepted
    exact .inr unmarked
  | current | absent snap | add snap c entry => exact .inl accepted
  | _ => cases accepted

end

section

variable {op : RebuildOp} {pc pc' : RebuildPc}

variable (i h) in
inductive RebuildStep : RebuildPc → Heap → RebuildPc → Prop
  | lock {pc' : RebuildPc} (free : h.snapshotMu = none) (first : pc' = .peek ∨ pc' = .load) :
    RebuildStep .start { h with snapshotMu := some i } pc'
  | missing : RebuildStep .peek h .unlock
  | present : RebuildStep .peek h .load
  | load : RebuildStep .load h (.flag h.store)
  | flag (old : Nat) :
    RebuildStep (.flag old) (h.retire old) (.drain old)
  | wait (old : Nat) : RebuildStep (.drain old) h (.drain old)
  | drained (old : Nat) {pc' : RebuildPc} (unused : (h.snaps old).quotaOps = 0)
    (next : pc' = .assemble old ∨ ∃ tasks, pc' = .copy old {} tasks) :
    RebuildStep (.drain old) h pc'
  | copy (old : Nat) (draft : Snapshot) (task : CopyTask) (tasks : List CopyTask)
    (built : Heap × Snapshot) (builds : Builds (h.snaps old) (h, draft) built) :
    RebuildStep (.copy old draft (task :: tasks)) built.1 (.copy old built.2 tasks)
  | copied (old : Nat) (draft : Snapshot) :
    RebuildStep (.copy old draft []) h (.publish old draft)
  | assemble (old : Nat) (built : Heap × Snapshot)
    (builds : Builds (h.snaps old) (h, (h.snaps old).entries) built) :
    RebuildStep (.assemble old) built.1 (.publish old built.2)
  | publish (old : Nat) (draft : Snapshot) :
    RebuildStep (.publish old draft) (h.publish draft) .unlock
  | unlock :
    RebuildStep .unlock { h with snapshotMu := none } .done

theorem stepRebuild_cases (stepped : stepRebuild quotaEnabled i env h op pc = some (h', pc')) :
    RebuildStep i h pc h' pc' := by
  cases pc with
  | start =>
    simp only [stepRebuild] at stepped
    split at stepped
    · cases stepped
    rename_i free
    cases stepped
    refine .lock free ?_
    cases op with
    | delete key => exact .inl rfl
    | reload metas | upsert m => exact .inr rfl
  | peek =>
    simp only [stepRebuild] at stepped
    split at stepped
    · split at stepped
      · cases stepped
        exact .missing
      · cases stepped
        exact .present
    · cases stepped
  | load =>
    cases stepped
    exact .load
  | flag old =>
    cases stepped
    exact .flag old
  | drain old =>
    simp only [stepRebuild] at stepped
    split at stepped
    next unused =>
      cases stepped
      refine .drained old unused ?_
      cases op with
      | reload metas => exact .inr ⟨_, rfl⟩
      | upsert m | delete key => exact .inl rfl
    · cases stepped
      exact .wait old
  | copy old draft tasks =>
    cases tasks with
    | nil =>
      cases stepped
      exact .copied old draft
    | cons task tasks =>
      cases stepped
      exact .copy old draft task tasks _ (copyEntry_builds env draft task)
  | assemble old =>
    obtain ⟨built, assembled, same⟩ := map_eq_some_iff.mp stepped
    cases same
    exact .assemble old built (assemble_builds assembled)
  | publish old draft =>
    cases stepped
    exact .publish old draft
  | unlock =>
    cases stepped
    exact .unlock
  | done => cases stepped

theorem Heap.Extends.frame (grown : h.Extends h') : h.Frame h' := by
  refine ⟨grown.store, grown.nextSnap, grown.snapshotMu, fun snap marked => ?_⟩
  rw [grown.snaps]
  exact marked

theorem retire_frame (snap : Nat) : h.Frame (h.retire snap) := by
  refine ⟨rfl, rfl, rfl, fun other marked => ?_⟩
  by_cases same : other = snap
  · subst same
    simp [retire]
  · simpa [retire, same] using marked

/-- A rebuild locks, publishes or unlocks, or moves nothing the protocol reads
but the mark. -/
theorem RebuildStep.frame (stepped : RebuildStep i h pc h' pc') :
    (h.Frame h' ∧ ∀ snap, (h'.snaps snap).quotaOps = (h.snaps snap).quotaOps) ∨
      (h.snapshotMu = none ∧ h' = { h with snapshotMu := some i } ∧ pc'.drained = false) ∨
      (∃ old draft, h' = h.publish draft ∧ pc = .publish old draft ∧ pc' = .unlock) ∨
      (h' = { h with snapshotMu := none } ∧ pc = .unlock ∧ pc' = .done) := by
  cases stepped with
  | lock free first =>
    refine .inr (.inl ⟨free, rfl, ?_⟩)
    obtain rfl | rfl := first <;> rfl
  | flag old =>
    exact .inl ⟨retire_frame old, fun snap => update_part old snap Snapshot.quotaOps rfl⟩
  | copy _ _ _ _ built builds | assemble _ built builds =>
    exact .inl ⟨builds.extends.frame, fun snap => by rw [builds.extends.snaps]⟩
  | publish old draft => exact .inr (.inr (.inl ⟨old, draft, rfl, rfl, rfl⟩))
  | unlock => exact .inr (.inr (.inr ⟨rfl, rfl, rfl⟩))
  | _ => exact .inl ⟨.refl h, fun _ => rfl⟩

/-- A rebuild gets past its drain by seeing nobody announced. -/
theorem RebuildStep.drains (stepped : RebuildStep i h pc h' pc') (drained : pc'.drained = true) :
    pc.drained = true ∨ ∃ old, pc.old = some old ∧ (h.snaps old).quotaOps = 0 := by
  cases stepped with
  | lock free first => obtain rfl | rfl := first <;> cases drained
  | drained old unused next => exact .inr ⟨old, rfl, unused⟩
  | copy | copied | assemble => exact .inl rfl
  | _ => cases drained

theorem Builds.quotaOps {old : Snapshot} {built built' : Heap × Snapshot}
    (builds : Builds old built built') : built'.2.quotaOps = built.2.quotaOps := by
  induction builds with
  | refl => rfl
  | tail _ step ih =>
    cases step with
    | drop ops => exact ops.trans ih
    | _ => exact ih

/-- What the counters and the quotas read, and a rebuild leaves alone until it publishes. -/
structure Heap.Keeps (h h' : Heap) : Prop where
  entry : h'.current.entry = h.current.entry
  log : h'.log = h.log
  next : h.next ≤ h'.next
  reading : ∀ p c, c < h.next → h'.reading p c = h.reading p c

theorem Heap.Extends.keeps (grown : h.Extends h') : h.Keeps h' :=
  ⟨by rw [grown.current], grown.log, grown.next, grown.reading⟩

/-- A draft is built from an empty one, from what it was or from the entries of the old
snapshot. -/
theorem RebuildStep.drafts (stepped : RebuildStep i h pc h' pc')
    (latest : ∀ old, pc.old = some old → old = h.store) :
    (∃ old draft, h' = h.publish draft ∧ pc = .publish old draft ∧ pc' = .unlock) ∨
      h.Keeps h' ∧ ∀ draft, pc'.draft = some draft →
        ∃ first, (first = {} ∨ pc.draft = some first ∨ first = h.current.entries) ∧
          Builds h.current (h, first) (h', draft) := by
  have still (mu : Option Nat) : h.Keeps { h with snapshotMu := mu } :=
    ⟨rfl, rfl, le_rfl, fun _ _ _ => rfl⟩
  cases stepped with
  | lock free first =>
    refine .inr ⟨still _, fun draft held => ?_⟩
    obtain rfl | rfl := first <;> cases held
  | flag old =>
    cases latest old rfl
    refine .inr ⟨⟨?_, rfl, le_rfl, fun _ _ _ => rfl⟩, nofun⟩
    rw [current_retire]
    exact funext fun p => by cases p <;> rfl
  | drained old unused next =>
    refine .inr ⟨still _, fun draft held => ?_⟩
    obtain rfl | ⟨tasks, rfl⟩ := next <;> cases held
    exact ⟨{}, .inl rfl, .refl⟩
  | copy old draft task tasks built builds =>
    cases latest old rfl
    refine .inr ⟨builds.extends.keeps, fun _ held => ?_⟩
    cases held
    exact ⟨draft, .inr (.inl rfl), builds⟩
  | copied old draft =>
    refine .inr ⟨still _, fun built held => ?_⟩
    cases held
    exact ⟨draft, .inr (.inl rfl), .refl⟩
  | assemble old built builds =>
    cases latest old rfl
    refine .inr ⟨builds.extends.keeps, fun _ held => ?_⟩
    cases held
    exact ⟨_, .inr (.inr rfl), builds⟩
  | publish old draft => exact .inl ⟨old, draft, rfl, rfl, rfl⟩
  | _ => exact .inr ⟨still _, nofun⟩

theorem RebuildPc.flagged_of_drained (drained : pc.drained = true) : pc.flagged = true := by
  cases pc <;> first | rfl | cases drained

theorem RebuildPc.drained_of_draft {draft : Snapshot} (held : pc.draft = some draft) :
    pc.drained = true := by
  cases pc <;> first | rfl | cases held

theorem RebuildStep.ok (stepped : RebuildStep i h pc h' pc')
    (ok : (rebuild op pc).Ok h i) : (rebuild op pc').Ok h' i := by
  obtain ⟨owns, latest, marked, unused⟩ := ok
  cases stepped with
  | lock free first =>
    obtain rfl | rfl := first <;> exact ⟨fun _ => rfl, nofun, nofun, nofun⟩
  | missing | present | publish old draft => exact ⟨owns, nofun, nofun, nofun⟩
  | load => exact ⟨owns, fun old held => (some.inj held).symm, nofun, nofun⟩
  | flag old =>
    cases latest old rfl
    refine ⟨owns, fun other held => (some.inj held).symm, fun _ => ?_, nofun⟩
    rw [current_retire]
  | wait old => exact ⟨owns, latest, marked, nofun⟩
  | drained old empty next =>
    obtain rfl | ⟨tasks, rfl⟩ := next
    · exact ⟨owns, latest, marked, nofun⟩
    refine ⟨owns, latest, marked, fun draft held => ?_⟩
    cases held
    rfl
  | copy old draft task tasks built builds =>
    apply Call.Ok.frame builds.extends.frame
    refine ⟨owns, latest, marked, fun _ held => ?_⟩
    cases held
    exact builds.quotaOps.trans (unused draft rfl)
  | copied old draft => exact ⟨owns, latest, marked, unused⟩
  | assemble old built builds =>
    apply Call.Ok.frame builds.extends.frame
    refine ⟨owns, latest, marked, fun _ held => ?_⟩
    cases held
    exact builds.quotaOps
  | unlock => exact ⟨nofun, nofun, nofun, nofun⟩

end

variable (i env h h') in
inductive CallStep : Call → Call → Prop
  | request {m : LimitedKey} {pc pc' : RequestPc} (acted : stepRequest env h m pc = some (h', pc')) :
    CallStep (.request m pc) (.request m pc')
  | rebuild {op : RebuildOp} {pc pc' : RebuildPc}
    (acted : RebuildStep i h pc h' pc') :
    CallStep (.rebuild op pc) (.rebuild op pc')
  | deduct {key cost : Int} {pc pc' : DeductPc}
    (acted : DeductStep i h key cost pc h' pc') :
    CallStep (.deduct key cost pc) (.deduct key cost pc')

theorem stepCall_cases {call call' : Call}
    (stepped : stepCall quotaEnabled i env h call = some (h', call')) :
    CallStep i env h h' call call' := by
  cases call <;> obtain ⟨⟨next, pc'⟩, acted, same⟩ := map_eq_some_iff.mp stepped <;> cases same
  case request m pc => exact .request acted
  case rebuild op pc => exact .rebuild (stepRebuild_cases acted)
  case deduct key cost pc => exact .deduct (stepDeduct_cases acted)

end

variable {procs : List Call}

theorem protocol_initial : Protocol newGate where
  stored := Nat.zero_lt_one
  calls i call found := by simp [newGate] at found
  ops _ := total_nil.symm
  exclusive i j call other found := by simp [newGate] at found

variable {call : Call} {op : RebuildOp} {pc' : RebuildPc} {snap : Nat}

theorem Call.starts_cases (starts : call.starts = true) :
    (∃ m, call = .request m .start) ∨ (∃ op, call = .rebuild op .start) ∨
      ∃ key cost, call = .deduct key cost .start := by
  unfold Call.starts at starts
  split at starts
  · exact .inl ⟨_, rfl⟩
  · exact .inr (.inl ⟨_, rfl⟩)
  · exact .inr (.inr ⟨_, _, rfl⟩)
  · cases starts

/-- A call that starts has no draft. -/
theorem rebuild_of_drafted {procs : List Call} {draft : Snapshot} (starts : call.starts = true)
    (found : (procs ++ [call])[i]? = some (.rebuild op pc')) (held : pc'.draft = some draft) :
    procs[i]? = some (.rebuild op pc') := by
  obtain ⟨-, rfl⟩ | found := append_cases found
  · obtain ⟨m, same⟩ | ⟨op, same⟩ | ⟨key, cost, same⟩ := starts_cases starts <;> cases same
    cases held
  · exact found

theorem Call.ok_of_starts (starts : call.starts = true) : call.Ok h i := by
  obtain ⟨m, rfl⟩ | ⟨op, rfl⟩ | ⟨key, cost, rfl⟩ := starts_cases starts
  · trivial
  · exact ⟨nofun, nofun, nofun, nofun⟩
  · exact ⟨nofun, nofun⟩

theorem Protocol.start (starts : call.starts = true) (inv : Protocol ⟨h, procs⟩) :
    Protocol ⟨h, procs ++ [call]⟩ := by
  have fresh : (∀ snap, call.inside snap = 0) ∧ call.accepted = none ∧ call.drained = false := by
    obtain ⟨m, rfl⟩ | ⟨op, rfl⟩ | ⟨key, cost, rfl⟩ := starts_cases starts
    all_goals exact ⟨fun _ => rfl, rfl, rfl⟩
  obtain ⟨outside, unaccepted, undrained⟩ := fresh
  refine ⟨inv.stored, each_append (ok_of_starts starts) inv.calls, ?_, ?_⟩
  · intro snap
    rw [total_append, outside snap, Int.add_zero]
    exact inv.ops snap
  · intro i j first second foundFirst foundSecond drained
    obtain ⟨-, rfl⟩ | foundFirst := append_cases foundFirst
    · rw [undrained] at drained
      cases drained
    · obtain ⟨-, rfl⟩ | foundSecond := append_cases foundSecond
      · rw [unaccepted]
        exact nofun
      · exact inv.exclusive i j first second foundFirst foundSecond drained

variable {call' : Call} {pc : RebuildPc} {j : Nat}

section

variable (inv : Protocol ⟨h, procs⟩)

include inv

theorem Protocol.frame (found : procs[i]? = some call) (same : h.Frame h') (ok : call'.Ok h' i)
    (ops : ∀ snap, (h'.snaps snap).quotaOps = (h.snaps snap).quotaOps - call.inside snap +
      call'.inside snap)
    (drains : call'.drained = true → ∀ j other, j ≠ i → procs[j]? = some other → other.accepted ≠
      some h.store)
    (accepts : call'.accepted = some h.store → ∀ j other, j ≠ i → procs[j]? = some other →
      other.drained = false) (apart : call'.drained = true → call'.accepted = none) :
    Protocol ⟨h', procs.set i call'⟩ := by
  refine ⟨?_, each_set ok fun j other _ foundOther => ?_, ?_, ?_⟩
  · rw [same.store, same.nextSnap]
    exact inv.stored
  · exact (inv.calls j other foundOther).frame same
  · intro snap
    rw [total_set found, ← inv.ops snap]
    exact ops snap
  · intro j k first second foundFirst foundSecond drained
    rw [same.store]
    obtain ⟨-, rfl⟩ | ⟨different, before⟩ := set_cases foundFirst
    · obtain ⟨-, rfl⟩ | ⟨different, before⟩ := set_cases foundSecond
      · rw [apart drained]
        exact nofun
      · exact drains drained k second different before
    · obtain ⟨-, rfl⟩ | ⟨-, beforeSecond⟩ := set_cases foundSecond
      · intro accepted
        rw [accepts accepted j first different before] at drained
        cases drained
      · exact inv.exclusive j k first second before beforeSecond drained

/-- While one rebuild holds the lock, no other is past it. -/
theorem Protocol.alone {other : Call} (found : procs[i]? = some (.rebuild op pc))
    (critical : pc.critical = true) (different : j ≠ i) (foundOther : procs[j]? = some other) :
    other.drained = false ∧ ∀ op' pc', other = .rebuild op' pc' → pc'.critical = false := by
  have owner := (inv.calls i _ found).1 critical
  have outside (op' : RebuildOp) (pc' : RebuildPc) (same : other = .rebuild op' pc') :
      pc'.critical = false := by
    subst same
    by_contra held
    have owned := (inv.calls j _ foundOther).1 (by simpa using held)
    exact different (some.inj (owned.symm.trans owner))
  refine ⟨?_, outside⟩
  cases other with
  | rebuild op' pc' =>
    have free := outside op' pc' rfl
    cases pc' <;> first | rfl | cases free
  | _ => rfl

/-- No draft is left when a rebuild has published its own. -/
theorem Protocol.undrafted {op' : RebuildOp} {old : Nat} {draft : Snapshot}
    (found : procs[i]? = some (.rebuild op (.publish old draft)))
    (foundOther : (procs.set i (.rebuild op .unlock))[j]? = some (.rebuild op' pc')) :
    pc'.draft = none := by
  obtain ⟨-, same⟩ | ⟨different, foundOther⟩ := set_cases foundOther
  · cases same
    rfl
  · have outside := (inv.alone found rfl different foundOther).2 op' pc' rfl
    cases pc' <;> first | rfl | cases outside

end

theorem DeductPc.accepted_of_committed {pc : DeductPc} (committed : pc.committed = some snap) :
    pc.accepted = some snap := by
  cases pc <;> first | exact committed | cases committed

theorem DeductPc.loaded_of_inside {pc : DeductPc} (inside : pc.inside = some snap) :
    pc.loaded = some snap := by
  cases pc <;> first | exact inside | cases inside

theorem Call.inside_nonneg (snap : Nat) (call : Call) : 0 ≤ call.inside snap := by
  cases call with
  | deduct key cost pc =>
    simp only [inside]
    split <;> decide
  | _ => exact le_rfl

theorem Call.inside_of_accepted (accepted : call.accepted = some snap) : call.inside snap = 1 := by
  cases call with
  | deduct key cost pc =>
    have inside : pc.inside = some snap := by
      cases pc <;> first | exact accepted | cases accepted
    simp [Call.inside, inside]
  | _ => cases accepted

variable (inv : Protocol ⟨h, procs⟩)

include inv

/-- No call is inside a snapshot that does not exist yet. -/
theorem Protocol.inside_next : total (inside h.nextSnap) procs = 0 := by
  apply total_eq_zero
  intro call member
  obtain ⟨j, found⟩ := List.getElem?_of_mem member
  have ok := inv.calls j call found
  cases call with
  | deduct key cost pc =>
    have outside : pc.inside ≠ some h.nextSnap := fun inside =>
      absurd (ok.1 _ (DeductPc.loaded_of_inside inside)) (Nat.lt_irrefl _)
    simp [inside, outside]
  | _ => rfl

/-- A rebuild that takes the lock, publishes or gives the lock back, while no
other rebuild is past the lock. -/
theorem Protocol.handover (found : procs[i]? = some (.rebuild op pc))
    (ok : (Call.rebuild op pc').Ok h' i)
    (free : ∀ (j : Nat) op' pc'', j ≠ i → procs[j]? = some (.rebuild op' pc'') →
      pc''.critical = false) (undrained : pc'.drained = false) (stored : h'.store < h'.nextSnap)
    (later : h.nextSnap ≤ h'.nextSnap)
    (moved : h'.store = h.store ∨ ∀ (j : Nat) (other : Call), procs[j]? = some other →
      other.accepted ≠ some h.store)
    (ops : ∀ snap, (h'.snaps snap).quotaOps = (h.snaps snap).quotaOps ∨
      snap = h.nextSnap ∧ (h'.snaps snap).quotaOps = 0) :
    Protocol ⟨h', procs.set i (.rebuild op pc')⟩ := by
  have others (j : Nat) (other : Call) (different : j ≠ i) (foundOther : procs[j]? = some other) :
      other.Ok h' j ∧ other.drained = false := by
    have before := inv.calls j other foundOther
    cases other with
    | request m rpc => exact ⟨trivial, rfl⟩
    | rebuild op' rpc =>
      have outside := free j op' rpc different foundOther
      cases rpc with
      | start | done => exact ⟨⟨nofun, nofun, nofun, nofun⟩, rfl⟩
      | _ => cases outside
    | deduct key cost dpc =>
      refine ⟨⟨fun snap loaded => (before.1 snap loaded).trans_le later, ?_⟩, rfl⟩
      intro snap committed
      have same := before.2 snap committed
      obtain kept | unaccepted := moved
      · exact same.trans kept.symm
      · subst same
        exact absurd (DeductPc.accepted_of_committed committed) (unaccepted j _ foundOther)
  refine ⟨stored, each_set ok fun j other different foundOther =>
    (others j other different foundOther).1, ?_, ?_⟩
  · intro snap
    rw [total_set found]
    obtain kept | ⟨rfl, zero⟩ := ops snap
    · have before : (h.snaps snap).quotaOps = total (Call.inside snap) procs := inv.ops snap
      simp only [Call.inside]
      omega
    · have before := inv.inside_next
      simp only [Call.inside]
      omega
  · intro j k first second foundFirst _ drained
    obtain ⟨-, rfl⟩ | ⟨different, foundOther⟩ := set_cases foundFirst
    · exact absurd drained (by simp [Call.drained, undrained])
    · rw [(others j first different foundOther).2] at drained
      cases drained

theorem Protocol.rebuild (found : procs[i]? = some (.rebuild op pc))
    (stepped : RebuildStep i h pc h' pc') : Protocol ⟨h', procs.set i (.rebuild op pc')⟩ := by
  have before := inv.calls i _ found
  have ok := stepped.ok before
  obtain ⟨same, ops⟩ | ⟨free, rfl, undrained⟩ | ⟨old, draft, rfl, rfl, rfl⟩ | ⟨rfl, rfl, rfl⟩ :=
    stepped.frame
  · refine inv.frame found same ok (fun snap => by simpa [inside] using ops snap) ?_ nofun
      (fun _ => rfl)
    intro drained j other _ foundOther accepted
    obtain already | ⟨old, held, unused⟩ := stepped.drains drained
    · exact inv.exclusive i j _ other found foundOther already accepted
    have same : old = h.store := before.2.1 old held
    subst same
    have counted := le_total (inside_nonneg h.store) foundOther
    rw [inside_of_accepted accepted, ← inv.ops h.store] at counted
    change 1 ≤ (h.snaps h.store).quotaOps at counted
    omega
  · refine inv.handover found ok ?_ undrained inv.stored le_rfl (.inl rfl) (fun _ => .inl rfl)
    intro j op' pc'' _ foundOther
    by_contra held
    have owned := (inv.calls j _ foundOther).1 (by simpa using held)
    rw [free] at owned
    cases owned
  · refine inv.handover found ok ?_ rfl (Nat.lt_succ_self _) (Nat.le_succ _) (.inr ?_) ?_
    · intro j op' pc'' different foundOther
      exact (inv.alone found rfl different foundOther).2 op' pc'' rfl
    · intro j other foundOther
      exact inv.exclusive i j _ other found foundOther rfl
    · intro snap
      by_cases same : snap = h.nextSnap
      · subst same
        exact .inr ⟨rfl, by simpa [publish] using before.2.2.2 draft rfl⟩
      · exact .inl (by simp [publish, same])
  · refine inv.handover found ok ?_ rfl inv.stored le_rfl (.inl rfl) (fun _ => .inl rfl)
    intro j op' pc'' different foundOther
    exact (inv.alone found rfl different foundOther).2 op' pc'' rfl

theorem Protocol.deduct {key cost : Int} {pc pc' : DeductPc}
    (found : procs[i]? = some (.deduct key cost pc)) (stepped : DeductStep i h key cost pc h' pc') :
    Protocol ⟨h', procs.set i (.deduct key cost pc')⟩ := by
  refine inv.frame found stepped.frame
    ((stepped.ok inv.stored (inv.calls i _ found)).frame stepped.frame) stepped.ops nofun ?_ nofun
  intro accepted j other _ foundOther
  obtain already | unmarked := stepped.accepted accepted
  · by_contra drained
    exact inv.exclusive j i other _ foundOther found (by simpa using drained) already
  cases other with
  | rebuild op rpc =>
    by_contra drained
    have flagged := RebuildPc.flagged_of_drained (by simpa [Call.drained] using drained)
    have marked := (inv.calls j _ foundOther).2.2.1 flagged
    exact Bool.false_ne_true (unmarked.symm.trans marked)
  | _ => rfl

theorem Protocol.step (found : procs[i]? = some call)
    (stepped : stepCall quotaEnabled i env h call = some (h', call')) :
    Protocol ⟨h', procs.set i call'⟩ := by
  cases stepCall_cases stepped with
  | request acted =>
    obtain ⟨counts, rfl⟩ := stepRequest_counts acted
    exact inv.frame found ⟨rfl, rfl, rfl, fun _ marked => marked⟩ trivial
      (fun snap => by simp [inside]) nofun nofun nofun
  | rebuild acted => exact inv.rebuild found acted
  | deduct acted => exact inv.deduct found acted

end C3Api.Proxy.GateSteps
