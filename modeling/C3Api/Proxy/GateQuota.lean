import C3Api.Proxy.GateCopies

/-!
# No deduction is lost when the gate's snapshot is rebuilt

The consumption of a key's entry is what the entry was opened with and the costs
added since, in every snapshot. A rebuild copies the consumption while no
deduction is between its checks and its return, so the copy misses none.
-/

namespace C3Api.Proxy.GateSteps

open Machine Interleaving List Option Call Heap

/-! ## The consumption of an entry -/

def accountStep (key : Int) (account : Option (Int × List (Nat × Int))) :
    QuotaEvent → Option (Int × List (Nat × Int))
  | .opened entries =>
    match entries key with
    | some consumed => some (consumed, [])
    | none => account
  | .added call k cost =>
    if k = key then account.map fun a => (a.1, a.2 ++ [(call, cost)]) else account

/-- The consumption a key's entry was last opened with, and the calls that have
added to it since, each with its cost. -/
def account (key : Int) (log : List QuotaEvent) : Option (Int × List (Nat × Int)) :=
  log.foldl (accountStep key) none

def balance (account : Int × List (Nat × Int)) : Int :=
  account.2.foldl (fun consumed entry => add64 consumed entry.2) account.1

structure Books (σ : Gate) : Prop extends Copied Place.quota σ where
  balanced : ∀ key c, σ.shared.current.quotas key = some c → ∃ a,
    account key σ.shared.log = some a ∧ (σ.shared.quotaCells (key, c)).consumed = balance a

variable {quotaEnabled : Bool} {i : Nat} {env : Env} {h h' : Heap} {procs : List Call}

section

theorem account_opened (key : Int) (log : List QuotaEvent) (entries : Int → Option Int) :
    account key (log ++ [.opened entries]) =
      match entries key with
      | some consumed => some (consumed, [])
      | none => account key log := by
  simp only [account, foldl_append, foldl_cons, foldl_nil, accountStep]

theorem account_added (key : Int) (log : List QuotaEvent) (call : Nat) (cost : Int) :
    account key (log ++ [.added call key cost]) =
      (account key log).map fun a => (a.1, a.2 ++ [(call, cost)]) := by
  simp [account, accountStep]

theorem account_other {key k : Int} (different : k ≠ key) (log : List QuotaEvent) (call : Nat)
    (cost : Int) : account key (log ++ [.added call k cost]) = account key log := by
  simp [account, accountStep, different]

variable (books : Books ⟨h, procs⟩)

include books

section

variable {call' : Call} (entry : h'.current.entry = h.current.entry)
  (reading : ∀ key c, c < h.next → h'.reading (.quota key) c = h.reading (.quota key) c)
  (log : h'.log = h.log)

include entry reading log

/-- The books move on when what they read stays: the entries of the current
snapshot, their consumption and the log. -/
theorem Books.frame (copied : Copied Place.quota ⟨h', procs.set i call'⟩) :
    Books ⟨h', procs.set i call'⟩ := by
  refine { copied with balanced := fun key c listed => ?_ }
  have before : h.current.quotas key = some c := (congrFun entry (.quota key)).symm.trans listed
  obtain ⟨a, accounted, same⟩ := books.balanced key c before
  refine ⟨a, ?_, (reading key c (books.known key c before)).trans same⟩
  rw [log]
  exact accounted

/-- A call without a draft. -/
theorem Books.keep (undrafted : ∀ op pc, call' ≠ .rebuild op pc) (next : h.next ≤ h'.next) :
    Books ⟨h', procs.set i call'⟩ :=
  books.frame entry reading log (books.toCopied.frame entry next reading fun op pc _ same =>
    absurd same (undrafted op pc))

end

variable (inv : Protocol ⟨h, procs⟩)

include inv

theorem Books.rebuild {op : RebuildOp} {pc pc' : RebuildPc}
    (found : procs[i]? = some (.rebuild op pc)) (stepped : RebuildStep i h pc h' pc') :
    Books ⟨h', procs.set i (.rebuild op pc')⟩ := by
  have copied := books.toCopied.rebuild inv found stepped
  obtain ⟨old, draft, rfl, rfl, rfl⟩ | ⟨keeps, -⟩ := stepped.drafts (inv.calls i _ found).2.1
  · refine { copied with balanced := fun key c entry => ?_ }
    rw [current_publish] at entry
    change ∃ a, account key (h.log ++ [.opened (h.openings draft)]) = some a ∧
      (h.quotaCells (key, c)).consumed = balance a
    rw [account_opened]
    cases earlier : h.current.quotas key with
    | none => exact ⟨((h.quotaCells (key, c)).consumed, []),
        by simp [openings, earlier, entry], rfl⟩
    | some o =>
      obtain ⟨a, accounted, same⟩ := books.balanced key o earlier
      refine ⟨a, by simpa [openings, earlier] using accounted, ?_⟩
      rw [← same]
      exact (books.drafts i op _ draft found rfl key c entry).2 _ (carried_some earlier)
  · exact books.frame keeps.entry (fun key => keeps.reading (.quota key)) keeps.log copied

theorem Books.add {key cost : Int} {pc' : DeductPc} {c : Nat}
    (found : procs[i]? = some (.deduct key cost (.add h.store)))
    (entry : h.current.quotas key = some c) :
    Books ⟨h.deduct i key cost c, procs.set i (.deduct key cost pc')⟩ := by
  refine ⟨⟨books.known, ?_⟩, ?_⟩
  rotate_left
  · intro k d listed
    obtain ⟨a, accounted, consumed⟩ := books.balanced k d listed
    change ∃ a, account k (h.log ++ [.added i key cost]) = some a ∧
      (Function.update h.quotaCells (key, c) _ (k, d)).consumed = balance a
    by_cases mine : k = key
    · subst mine
      cases entry.symm.trans listed
      refine ⟨(a.1, a.2 ++ [(i, cost)]), by rw [account_added, accounted]; rfl, ?_⟩
      rw [Function.update_self]
      simp only [balance, foldl_append, foldl_cons, foldl_nil]
      rw [consumed]
      rfl
    · refine ⟨a, by rw [account_other (Ne.symm mine), accounted], ?_⟩
      rw [Function.update_of_ne fun same => mine (Prod.mk.inj same).1]
      exact consumed
  · -- a rebuild with a draft is past its drain, but this deduction is announced
    intro j op rpc draft foundOther held
    obtain ⟨-, same⟩ | ⟨-, foundOther⟩ := set_cases foundOther
    · cases same
    · have drained := RebuildPc.drained_of_draft held
      exact absurd rfl (inv.exclusive j i _ _ foundOther found drained)

theorem Books.deduct {key cost : Int} {pc pc' : DeductPc}
    (found : procs[i]? = some (.deduct key cost pc)) (stepped : DeductStep i h key cost pc h' pc') :
    Books ⟨h', procs.set i (.deduct key cost pc')⟩ := by
  cases stepped with
  | enter snap =>
    exact books.keep (addOps_entry snap h.store 1) (fun _ _ _ => rfl) rfl nofun le_rfl
  | retry snap | leave snap result =>
    exact books.keep (addOps_entry snap h.store (-1)) (fun _ _ _ => rfl) rfl nofun le_rfl
  | add snap c entry =>
    have same : snap = h.store := (inv.calls i _ found).2 snap rfl
    subst same
    exact books.add inv found entry
  | _ => exact books.keep rfl (fun _ _ _ => rfl) rfl nofun le_rfl

theorem Books.step {call call' : Call} (found : procs[i]? = some call)
    (stepped : stepCall quotaEnabled i env h call = some (h', call')) :
    Books ⟨h', procs.set i call'⟩ := by
  cases stepCall_cases stepped with
  | request acted =>
    obtain ⟨counts, rfl⟩ := stepRequest_counts acted
    exact books.keep rfl (fun _ _ _ => rfl) rfl nofun le_rfl
  | rebuild acted => exact books.rebuild inv found acted
  | deduct acted => exact books.deduct inv found acted

end

/-! ## Each deduction is counted once -/

def addedBy (i : Nat) : QuotaEvent → Bool
  | .opened _ => false
  | .added call _ _ => decide (call = i)

/-- How often the call may have added its cost. -/
def Call.added : Call → Nat
  | .deduct _ _ (.leave _ _) | .deduct _ _ (.returned _) => 1
  | _ => 0

structure Logged (σ : Gate) : Prop where
  once : ∀ (i : Nat) (call : Call), σ.procs[i]? = some call →
    σ.shared.log.countP (addedBy i) ≤ call.added
  unseen : ∀ i, σ.procs.length ≤ i → σ.shared.log.countP (addedBy i) = 0
  leaving : ∀ (i : Nat) key cost snap result,
    σ.procs[i]? = some (.deduct key cost (.leave snap result)) → result ≠ 0 →
    ∃ a, account key σ.shared.log = some a ∧ (i, result) ∈ a.2

section

variable {call call' : Call}

theorem stepCall_log (stepped : stepCall quotaEnabled i env h call = some (h', call')) :
    h'.log = h.log ∨
    (∃ draft, h'.log = h.log ++ [.opened (h.openings draft)] ∧ call.drained = true ∧
      call'.added = 0) ∨
    (∃ key cost snap c, call = .deduct key cost (.add snap) ∧
      (h.snaps snap).quotas key = some c ∧ call' = .deduct key cost (.leave snap cost) ∧
      h'.log = h.log ++ [.added i key cost]) := by
  cases stepCall_cases stepped with
  | request acted =>
    obtain ⟨counts, rfl⟩ := stepRequest_counts acted
    exact .inl rfl
  | rebuild acted =>
    cases acted with
    | copy _ _ _ _ _ builds | assemble _ _ builds => exact .inl builds.extends.log
    | publish old draft => exact .inr (.inl ⟨draft, rfl, rfl, rfl⟩)
    | _ => exact .inl rfl
  | deduct acted =>
    cases acted with
    | add snap c entry => exact .inr (.inr ⟨_, _, snap, c, rfl, entry, rfl, rfl⟩)
    | _ => exact .inl rfl

/-- A step that logs nothing. A deduction that is about to leave has added its
cost before or returns zero. -/
theorem stepCall_quiet (stepped : stepCall quotaEnabled i env h call = some (h', call'))
    (quiet : h'.log = h.log) :
    call.added ≤ call'.added ∧ ∀ key cost snap result,
      call' = .deduct key cost (.leave snap result) → result = 0 := by
  cases stepCall_cases stepped with
  | request | rebuild => exact ⟨le_rfl, by simp⟩
  | deduct acted =>
    cases acted with
    | absent snap =>
      refine ⟨Nat.zero_le _, fun key cost snap result same => ?_⟩
      cases same
      rfl
    | add snap c entry => simp [Heap.deduct] at quiet
    | leave snap result => exact ⟨le_rfl, by simp⟩
    | _ => exact ⟨Nat.zero_le _, by simp⟩

theorem account_grows {key k : Int} {log : List QuotaEvent} {a : Int × List (Nat × Int)}
    {entry : Nat × Int} (accounted : account key log = some a) (counted : entry ∈ a.2)
    (call : Nat) (cost : Int) :
    ∃ b, account key (log ++ [.added call k cost]) = some b ∧ entry ∈ b.2 := by
  by_cases same : k = key
  · subst same
    refine ⟨(a.1, a.2 ++ [(call, cost)]), by rw [account_added, accounted]; rfl, ?_⟩
    exact mem_append_left _ counted
  · exact ⟨a, by rw [account_other same, accounted], counted⟩

theorem Logged.step (logged : Logged ⟨h, procs⟩) (books : Books ⟨h, procs⟩)
    (inv : Protocol ⟨h, procs⟩) (found : procs[i]? = some call)
    (stepped : stepCall quotaEnabled i env h call = some (h', call')) :
    Logged ⟨h', procs.set i call'⟩ := by
  have before := logged.once i call found
  have inside : i < procs.length := (List.getElem?_eq_some_iff.mp found).1
  obtain quiet | ⟨draft, appended, drained, fresh⟩ |
    ⟨key, cost, snap, c, rfl, entry, rfl, appended⟩ := stepCall_log stepped
  · obtain ⟨more, zero⟩ := stepCall_quiet stepped quiet
    refine ⟨?_, ?_, ?_⟩ <;> simp only [quiet]
    · exact each_set (before.trans more) fun j other _ foundOther => logged.once j other foundOther
    · simpa using logged.unseen
    · intro j key cost snap result leaving
      obtain ⟨rfl, same⟩ | ⟨-, leaving⟩ := set_cases leaving
      · exact fun nonzero => absurd (zero key cost snap result same.symm) nonzero
      · exact logged.leaving j key cost snap result leaving
  · -- a publication: nobody is between its addition and its return
    refine ⟨?_, ?_, ?_⟩ <;> simp only [appended, countP_append, countP_singleton,
      addedBy, Bool.false_eq_true, if_false, Nat.add_zero]
    · refine each_set ?_ fun j other _ foundOther => logged.once j other foundOther
      rw [fresh]
      have unchanged : call.added = 0 := by
        cases call with
        | rebuild op pc => rfl
        | _ => cases drained
      rw [← unchanged]
      exact before
    · simpa using logged.unseen
    · intro j key cost snap result leaving
      obtain ⟨-, rfl⟩ | ⟨-, leaving⟩ := set_cases leaving
      · cases fresh
      have same : snap = h.store := (inv.calls j _ leaving).2 snap rfl
      subst same
      exact absurd rfl (inv.exclusive i j call _ found leaving drained)
  · have same : snap = h.store := (inv.calls i _ found).2 snap rfl
    subst same
    refine ⟨?_, ?_, ?_⟩ <;> simp only [appended, countP_append, countP_singleton, addedBy,
      decide_eq_true_eq]
    · refine each_set ?_ fun j other different foundOther => ?_
      · simpa [added] using before
      · simpa [Ne.symm different] using logged.once j other foundOther
    · intro j outside
      rw [length_set] at outside
      have different : i ≠ j := by omega
      simpa [different] using logged.unseen j outside
    · intro j k price snap result leaving
      obtain ⟨rfl, same⟩ | ⟨-, leaving⟩ := set_cases leaving
      · intro _
        cases same
        obtain ⟨a, accounted, -⟩ := books.balanced key c entry
        refine ⟨(a.1, a.2 ++ [(j, cost)]), by rw [account_added, accounted]; rfl, ?_⟩
        exact mem_append_right _ mem_cons_self
      · intro nonzero
        obtain ⟨a, accounted, counted⟩ := logged.leaving j k price snap result leaving nonzero
        exact account_grows accounted counted i cost

theorem Logged.start (starts : call.starts = true) (logged : Logged ⟨h, procs⟩) :
    Logged ⟨h, procs ++ [call]⟩ := by
  refine ⟨?_, fun i outside => logged.unseen i ?_, ?_⟩
  · refine each_append ?_ logged.once
    rw [logged.unseen procs.length le_rfl]
    exact Nat.zero_le _
  · have length : procs.length + 1 ≤ i := by simpa using outside
    change procs.length ≤ i
    omega
  · intro i key cost snap result leaving
    obtain ⟨-, rfl⟩ | leaving := append_cases leaving
    · cases starts
    · exact logged.leaving i key cost snap result leaving

theorem Logged.at_most_once {σ : Gate} (logged : Logged σ) (i : Nat) :
    σ.shared.log.countP (addedBy i) ≤ 1 := by
  cases found : σ.procs[i]? with
  | none =>
    rw [logged.unseen i (getElem?_eq_none_iff.mp found)]
    exact Nat.zero_le 1
  | some call =>
    apply (logged.once i call found).trans
    unfold added
    split <;> decide

/-- An account counts no call more often than the log. -/
theorem account_le_log (key : Int) (i : Nat) (log : List QuotaEvent)
    {a : Int × List (Nat × Int)} (accounted : account key log = some a) :
    (a.2.filter fun entry => entry.1 = i).length ≤ log.countP (addedBy i) := by
  induction log using reverseRecOn generalizing a with
  | nil => cases accounted
  | append_singleton log event ih =>
    rw [countP_append]
    cases event with
    | opened entries =>
      rw [account_opened] at accounted
      split at accounted
      · cases accounted
        exact Nat.zero_le _
      · exact (ih accounted).trans (Nat.le_add_right _ _)
    | added call k cost =>
      by_cases same : k = key
      · subst same
        rw [account_added] at accounted
        obtain ⟨b, earlier, rfl⟩ := map_eq_some_iff.mp accounted
        have bound := ih earlier
        by_cases mine : call = i
        · simpa [addedBy, mine] using bound
        · simpa [addedBy, mine] using bound
      · rw [account_other same] at accounted
        exact (ih accounted).trans (Nat.le_add_right _ _)

end

/-- The current snapshot has a quota entry for the key. -/
def HasEntry (key : Int) (σ : Gate) : Prop := ∃ c, σ.shared.current.quotas key = some c

/-- Any order of steps, as long as the key's entry is there. -/
def whileEntry (key : Int) (σ : Gate) (l : Label Call Env) : Prop :=
  anyOrder σ l ∧ HasEntry key σ

section

variable {σ σ' : Gate}

structure Sound (σ : Gate) : Prop where
  protocol : Protocol σ
  books : Books σ
  logged : Logged σ

theorem sound_initial : Sound newGate where
  protocol := protocol_initial
  books := { copied_initial with balanced := nofun }
  logged := {
    once := fun i call found => by simp [newGate] at found
    unseen := fun _ _ => rfl
    leaving := fun i key cost snap result found => by simp [newGate] at found }

theorem Books.start {h : Heap} {procs : List Call} {call : Call} (starts : call.starts = true)
    (books : Books ⟨h, procs⟩) : Books ⟨h, procs ++ [call]⟩ :=
  { books.toCopied.start starts with balanced := books.balanced }

theorem sound_of_reachable (reached : Reachable (stepCall quotaEnabled) anyOrder newGate σ) :
    Sound σ := by
  refine reached.invariant sound_initial ?_ ?_
  · intro h procs call starts sound
    exact ⟨sound.protocol.start starts, sound.books.start starts, sound.logged.start starts⟩
  · intro h procs i env call h' call' _ found stepped sound
    exact ⟨sound.protocol.step found stepped, sound.books.step sound.protocol found stepped,
      sound.logged.step sound.books sound.protocol found stepped⟩

variable {key : Int} {a : Int × List (Nat × Int)} {entry : Nat × Int}

/-- While the entry is there, what its account has counted stays counted. -/
theorem counted_step {l : Label Call Env} (present : HasEntry key σ)
    (stepped : σ.next (stepCall quotaEnabled) l = some σ')
    (accounted : account key σ.shared.log = some a) (counted : entry ∈ a.2) :
    ∃ b, account key σ'.shared.log = some b ∧ entry ∈ b.2 := by
  cases l with
  | start call =>
    cases stepped
    exact ⟨a, accounted, counted⟩
  | step i env =>
    obtain ⟨call, h', call', -, acted, rfl⟩ := next_step stepped
    obtain quiet | ⟨draft, appended, -, -⟩ | ⟨k, cost, snap, c, -, -, -, appended⟩ :=
      stepCall_log acted
    · exact ⟨a, by rw [quiet, accounted], counted⟩
    · obtain ⟨c, listed⟩ := present
      refine ⟨a, ?_, counted⟩
      rw [appended, account_opened]
      simpa [openings, listed] using accounted
    · rw [appended]
      exact account_grows accounted counted i cost

theorem counted_later (later : Reachable (stepCall quotaEnabled) (whileEntry key) σ σ')
    (accounted : account key σ.shared.log = some a) (counted : entry ∈ a.2) :
    ∃ b, account key σ'.shared.log = some b ∧ entry ∈ b.2 := by
  induction later with
  | refl => exact ⟨a, accounted, counted⟩
  | tail _ permitted stepped ih =>
    obtain ⟨b, accounted, counted⟩ := ih
    exact counted_step permitted.2 stepped accounted counted

theorem counted_at_return {cost result : Int} (logged : Logged σ)
    (stepped : σ.next (stepCall quotaEnabled) (.step i env) = some σ')
    (returned : σ'.procs[i]? = some (.deduct key cost (.returned result))) (nonzero : result ≠ 0) :
    ∃ a, account key σ'.shared.log = some a ∧ (i, result) ∈ a.2 := by
  obtain ⟨call, h', call', found, acted, rfl⟩ := next_step stepped
  obtain rfl : call' = .deduct key cost (.returned result) := by
    rw [List.getElem?_set_self (List.getElem?_eq_some_iff.mp found).1] at returned
    exact some.inj returned
  cases stepCall_cases acted with
  | deduct leaving =>
    cases leaving with
    | refuse => exact absurd rfl nonzero
    | leave snap => exact logged.leaving i key cost snap result found nonzero

end

/-- Once a deduction has returned its cost, every later snapshot counts it exactly
once, as long as the key's quota entry stays: the consumption is what the entry
was opened with and the costs of the calls counted since. -/
theorem deduction_counted_once (quotaEnabled : Bool) (σ₀ σ₁ σ : Gate) (i : Nat) (env : Env)
    (key cost result : Int) (reached : Reachable (stepCall quotaEnabled) anyOrder newGate σ₀)
    (returns : σ₀.next (stepCall quotaEnabled) (.step i env) = some σ₁)
    (returned : σ₁.procs[i]? = some (.deduct key cost (.returned result))) (nonzero : result ≠ 0)
    (later : Reachable (stepCall quotaEnabled) (whileEntry key) σ₁ σ) (c : Nat)
    (entry : σ.shared.current.quotas key = some c) :
    ∃ opening counted, account key σ.shared.log = some (opening, counted) ∧
      (σ.shared.quotaCells (key, c)).consumed =
        counted.foldl (fun consumed entry => add64 consumed entry.2) opening ∧
      counted.filter (fun entry => entry.1 = i) = [(i, result)] := by
  have reached₁ : Reachable (stepCall quotaEnabled) anyOrder newGate σ₁ :=
    .tail (l := .step i env) reached rfl returns
  have sound := sound_of_reachable (reached₁.trans (later.mono fun _ _ permitted => permitted.1))
  obtain ⟨a, accounted, counted⟩ :=
    counted_at_return (sound_of_reachable reached).logged returns returned nonzero
  obtain ⟨b, accountedLater, countedLater⟩ := counted_later later accounted counted
  obtain ⟨b', same, consumed⟩ := sound.books.balanced key c entry
  cases accountedLater.symm.trans same
  refine ⟨b.1, b.2, accountedLater, consumed, ?_⟩
  have once := (account_le_log key i _ accountedLater).trans (sound.logged.at_most_once i)
  have member : (i, result) ∈ b.2.filter fun entry => entry.1 = i :=
    mem_filter.mpr ⟨countedLater, by simp⟩
  obtain ⟨only, single⟩ := length_eq_one_iff.mp (Nat.le_antisymm once (length_pos_of_mem member))
  rw [single] at member ⊢
  rw [mem_singleton.mp member]

def sampleQuota : KeyMeta := { keyID := 1, userID := 7, hasQuota := true, quota := 100 }

/-- A key is added, then a deduction of thirty meets a reload: it enters the old
snapshot twice and finds it retiring, and adds to the new one. -/
def deductDuringReload : List (Label Call Env) :=
  [.start (.rebuild (.upsert sampleQuota) .start)] ++ replicate 7 (.step 0 {}) ++
  [.start (.deduct 1 30 .start), .start (.rebuild (.reload [sampleQuota]) .start)] ++
  replicate 3 (.step 1 {}) ++ replicate 3 (.step 2 {}) ++
  replicate 2 (.step 1 {}) ++ [.step 2 {}] ++ replicate 4 (.step 1 {}) ++
  replicate 6 (.step 2 {}) ++ replicate 5 (.step 1 {})

def reloadAgain : List (Label Call Env) :=
  .start (.rebuild (.reload [sampleQuota]) .start) :: replicate 10 (.step 3 {})

def Call.result : Call → Option (Int × Int × Int)
  | .deduct key cost (.returned result) => some (key, cost, result)
  | _ => none

theorem Call.result_cases {call : Call} {key cost result : Int}
    (returned : call.result = some (key, cost, result)) :
    call = .deduct key cost (.returned result) := by
  unfold Call.result at returned
  split at returned
  · cases returned
    rfl
  · cases returned

theorem deduction_counted_once_reloaded :
    ∃ σ : Gate, ∃ c opening counted, σ.shared.store = 3 ∧ σ.shared.current.quotas 1 = some c ∧
      account 1 σ.shared.log = some (opening, counted) ∧ (σ.shared.quotaCells (1, c)).consumed =
        counted.foldl (fun consumed entry => add64 consumed entry.2) opening ∧
      counted.filter (fun entry => entry.1 = 1) = [(1, 30)] := by
  have ran : ((run (stepCall true) (fun _ l => legal l) newGate deductDuringReload).bind fun σ₀ =>
      (σ₀.next (stepCall true) (.step 1 {})).bind fun σ₁ =>
        (run (stepCall true) (fun σ l => legal l && (σ.shared.current.quotas 1).isSome) σ₁
          reloadAgain).map fun σ =>
            (σ₁.procs[1]?.bind result, σ.shared.store, σ.shared.current.quotas 1)) =
      some (some (1, 30, 30), 3, some 8) := by decide +kernel
  obtain ⟨σ₀, first, ran⟩ := bind_eq_some_iff.mp ran
  obtain ⟨σ₁, returns, ran⟩ := bind_eq_some_iff.mp ran
  obtain ⟨σ, again, found⟩ := map_eq_some_iff.mp ran
  simp only [Prod.mk.injEq] at found
  obtain ⟨returned, store, entry⟩ := found
  obtain ⟨call, listed, result⟩ := bind_eq_some_iff.mp returned
  cases result_cases result
  have later : Reachable (stepCall true) (whileEntry 1) σ₁ σ := by
    refine (reachable_of_run again).mono fun σ l accepted => ?_
    obtain ⟨legal, present⟩ : legal l = true ∧ (σ.shared.current.quotas 1).isSome = true := by
      simpa using accepted
    exact ⟨legal, isSome_iff_exists.mp present⟩
  obtain ⟨opening, counted, accounted⟩ := deduction_counted_once true σ₀ σ₁ σ 1 {} 1 30 30
    (reachable_of_run first) returns listed (by decide) later
    8 entry
  exact ⟨σ, 8, opening, counted, store, entry, accounted⟩

/-- Past its drain a rebuild copies consumptions that stand still: no deduction is between its
checks and its return. -/
theorem drained_alone {σ : Gate} {j : Nat} {op : RebuildOp} {pc : RebuildPc} {key cost : Int}
    {pc' : DeductPc} (reached : Reachable (stepCall quotaEnabled) anyOrder newGate σ)
    (rebuilds : σ.procs[i]? = some (.rebuild op pc)) (drained : pc.drained = true)
    (deducts : σ.procs[j]? = some (.deduct key cost pc')) : pc'.committed = none := by
  obtain ⟨protocol, -, -⟩ := sound_of_reachable reached
  rw [eq_none_iff_forall_ne_some]
  intro snap committed
  have current := (protocol.calls j _ deducts).2 snap committed
  refine protocol.exclusive i j _ _ rebuilds deducts drained ?_
  cases pc' <;> cases committed <;> exact congrArg some current

/-- The deduction is announced on the old snapshot while the reload copies it. -/
theorem drained_alone_announced : ∃ (σ : Gate) (key cost : Int) (pc : DeductPc),
    σ.procs[1]? = some (.deduct key cost pc) ∧ pc.inside.isSome ∧ pc.committed = none := by
  have ran : (run (stepCall true) (fun _ l => legal l) newGate (deductDuringReload.take 21)).any
      (fun σ => σ.procs[2]?.any Call.drained && σ.procs[1]?.any (·.inside 1 = 1)) = true := by
    decide +kernel
  obtain ⟨σ, first, held⟩ := (any_eq_true _ _).mp ran
  simp only [Bool.and_eq_true, Option.any_eq_true] at held
  obtain ⟨⟨rebuild, rebuilds, drained⟩, deduct, deducts, inside⟩ := held
  cases rebuild <;> try cases drained
  cases deduct <;> simp [Call.inside] at inside
  exact ⟨σ, _, _, _, deducts, by simp [inside],
    drained_alone (reachable_of_run first) rebuilds drained deducts⟩

end C3Api.Proxy.GateSteps
