import C3Api.Scheduler.Linked
import C3Api.Scheduler.MatchedPair

/-!
# When the lease counters of an account are exact

All leaves of an account share one runtime, and its counter is what a reservation
consults, as long as no reload takes the account out of the index. A group reload does
take it out when the account leaves its only known group, even if the next group of the
batch brings it back: the account then starts over with a fresh counter
(`moved_account_counts_again`). Where the loads leave it a group at every step (`stays`) the
counters are exact (`leases_exact`).
-/

namespace C3Api.Scheduler

open Interleaving FiniteMap List Option Function Publisher Lease Call

variable {D : Type}

section

/-- One for a lease of the account that no release has claimed. -/
def Lease.standing (acct : Int) (l : Lease) : Int :=
  if l.runtime.account = acct ∧ l.released = false then 1 else 0

/-- One for a release of the account that has claimed its lease and not yet lowered the
counter. -/
def Call.lowering (acct : Int) : Call D → Int
  | .release _ (.lower runtime) => if runtime.account = acct then 1 else 0
  | _ => 0

variable (acct : Int) (lease : Nat) (runtime : RuntimeRef)

@[simp] theorem standing_unreleased :
    standing acct ⟨runtime, false⟩ = if runtime.account = acct then 1 else 0 := by
  simp [standing]

@[simp] theorem standing_released : standing acct ⟨runtime, true⟩ = 0 := by
  simp [standing]

@[simp] theorem lowering_reserve (pc : ReservePc) :
    (reserve pc : Call D).lowering acct = 0 := rfl

@[simp] theorem lowering_swap : (release lease .swap : Call D).lowering acct = 0 := rfl

@[simp] theorem lowering_done : (release lease .done : Call D).lowering acct = 0 := rfl

@[simp] theorem lowering_lower :
    (release lease (.lower runtime) : Call D).lowering acct =
      if runtime.account = acct then 1 else 0 := rfl

def outstanding (acct : Int) (σ : Pool (Heap D) (Call D)) : Int :=
  total (standing acct) σ.shared.leases + total (lowering acct) σ.procs

end

/-- The account has a limit between one and `M` in the row. -/
def limited (acct M : Int) (a : Account) : Bool :=
  decide (a.id ≠ acct) || (decide (1 ≤ a.maxConcurrency) && decide (a.maxConcurrency ≤ M))

/-- The rows of a group: limited, and each account once. -/
def fair (acct M : Int) (accs : List Account) : Bool :=
  accs.all (limited acct M) && decide (accs.map (·.id)).Nodup

def lists (acct : Int) (accs : List Account) : Bool := accs.any fun a => decide (a.id = acct)

/-- The groups that the leaf of an account names, followed through the loads of a batch: a group
that loads the account joins them, and one that loads without it leaves them. The account stays
when a group is left at every step. -/
def stays (acct : Int) (load : Int → Option (List Account)) : List Int → Option (List Int) → Bool
  | [], _ => true
  | gid :: rest, known =>
    match load gid with
    | none => stays acct load rest known
    | some accs =>
      if lists acct accs then stays acct load rest (some (gid :: removeGid (known.getD []) gid))
      else
        match known with
        | none => stays acct load rest none
        | some gids =>
          !(removeGid gids gid).isEmpty && stays acct load rest (some (removeGid gids gid))

/-- The groups that the index names for the account. -/
def Root.namedGroups (root : Root) (acct : Int) : Option (List Int) :=
  (root.byID.lookup acct).map (·.static.groupIDs)

/-- Runs in which an indexed account is among the rows of every reload and keeps a group through
every batch. -/
def keeps (acct M : Int) (σ : Pool (Heap D) (Call D)) : Label (Call D) (Input D) → Bool
  | .start call => call.starts
  | .step i _ =>
    let named := σ.shared.publisher.workingRoot.namedGroups acct
    match σ.procs[i]? with
    | some (.reload m) =>
      m.all (fun g => fair acct M g.2) && (named.isNone || lists acct (rows m))
    | some (.invalidateGroups ids load reach) =>
      (batchGroups ids reach).all (fun gid => (load gid).all (fair acct M)) &&
        stays acct load (batchGroups ids reach) named
    | _ => true

variable {acct M : Int} {r : RuntimeRef}

section

/-- Runtimes belong to their accounts, and that of the account is `r`. -/
def Owned (acct M : Int) (r : RuntimeRef) (acc : Account) (runtime : RuntimeRef) : Prop :=
  runtime.account = acc.id ∧
    (acc.id = acct → runtime = r ∧ 1 ≤ acc.maxConcurrency ∧ acc.maxConcurrency ≤ M)

theorem owned_mixable : Mixable (Owned acct M r) := by
  intro a b s t same first second
  refine ⟨second.1.trans same.symm, ?_⟩
  intro own
  exact ⟨(second.2 (same ▸ own)).1, (first.2 own).2⟩

theorem clampCodex_limited {a : Account} (bounded : limited acct M a = true) (own : a.id = acct) :
    1 ≤ (clampCodex a).maxConcurrency ∧ (clampCodex a).maxConcurrency ≤ M := by
  obtain ⟨lower, upper⟩ : 1 ≤ a.maxConcurrency ∧ a.maxConcurrency ≤ M := by
    simpa [limited, own] using bounded
  unfold clampCodex
  split
  · split
    next clamped =>
      have := clamped.2
      simp only [maxIdentityPoolSlots] at this ⊢
      omega
    · exact ⟨lower, upper⟩
  · exact ⟨lower, upper⟩

variable {created : Created} {m : List (Int × List Account)} {old : Root}

/-- The leaves that a load builds, once the leaf of the account has runtime `r`. -/
theorem built_owned (before : old.All (Owned acct M r))
    (bounded : ∀ a ∈ rows m, limited acct M a = true)
    (own : ∀ leaf, (buildSnapshots created m old.byID).2.byID.lookup acct = some leaf →
      leaf.runtime = r) (id : Int) (leaf : Leaf)
    (found : (buildSnapshots created m old.byID).2.byID.lookup id = some leaf) :
    leaf.id = id ∧ Owned acct M r leaf.static.acc leaf.runtime := by
  obtain ⟨a, row, account, kept | ⟨same, shared, fresh⟩⟩ := buildSnapshots_built found
  · exact before.indexed id leaf kept
  have number : leaf.static.acc.id = id := by rw [same, clampCodex_id, account]
  refine ⟨number, ?_, ?_⟩
  · rw [number]
    cases known : old.byID.lookup id with
    | none => exact fresh known
    | some o =>
      obtain ⟨same, owned⟩ := before.indexed id o known
      rw [shared o known, owned.1]
      exact same
  · intro mine
    rw [number] at mine
    subst mine
    refine ⟨own leaf found, ?_⟩
    rw [same]
    exact clampCodex_limited (bounded a row) account

/-- The runtime goes on when the account is indexed. -/
theorem built_runtime (before : old.All (Owned acct M r)) (indexed : (old.byID.lookup acct).isSome)
    (leaf : Leaf) (found : (buildSnapshots created m old.byID).2.byID.lookup acct = some leaf) :
    leaf.runtime = r := by
  obtain ⟨o, known⟩ := isSome_iff_exists.mp indexed
  have old := before.indexed acct o known
  have mine := (old.2.2 old.1).1
  obtain ⟨_, _, _, kept | ⟨_, shared, _⟩⟩ := buildSnapshots_built found
  · cases known.symm.trans kept
    exact mine
  · rw [shared o known, mine]

/-- The account is indexed under runtime `r`. -/
def Root.Holds (acct M : Int) (r : RuntimeRef) (root : Root) : Prop :=
  root.All (Owned acct M r) ∧ (root.byID.lookup acct).isSome

/-- The account has not appeared yet: any runtime could be its own. -/
def Root.Open (acct M : Int) (root : Root) : Prop :=
  ∀ r : RuntimeRef, r.account = acct → root.All (Owned acct M r)

/-- A load that brings the account fixes its runtime, and any other leaves it open. -/
theorem built_open (before : old.Open acct M) (bounded : ∀ a ∈ rows m, limited acct M a = true) :
    (∃ leaf, (buildSnapshots created m old.byID).2.byID.lookup acct = some leaf ∧
      leaf.runtime.account = acct ∧
      ∀ id other, (buildSnapshots created m old.byID).2.byID.lookup id = some other →
        other.id = id ∧ Owned acct M leaf.runtime other.static.acc other.runtime) ∨
    ∀ r : RuntimeRef, r.account = acct →
      ∀ id other, (buildSnapshots created m old.byID).2.byID.lookup id = some other →
        other.id = id ∧ Owned acct M r other.static.acc other.runtime := by
  cases found : (buildSnapshots created m old.byID).2.byID.lookup acct with
  | none => exact .inr fun r account => built_owned (before r account) bounded (by simp [found])
  | some leaf =>
    have account : leaf.runtime.account = acct := by
      have old := before ⟨acct, 0⟩ rfl
      obtain ⟨_, _, _, kept | ⟨_, shared, fresh⟩⟩ := buildSnapshots_built found
      · obtain ⟨same, owned⟩ := old.indexed acct leaf kept
        exact owned.1.trans same
      cases known : (Root.byID _).lookup acct with
      | none => exact fresh known
      | some o =>
        obtain ⟨same, owned⟩ := old.indexed acct o known
        rw [shared o known]
        exact owned.1.trans same
    exact .inl ⟨leaf, rfl, account, built_owned (before _ account) bounded (by simp [found])⟩

theorem fair_iff {accs : List Account} : fair acct M accs = true ↔
    (∀ a ∈ accs, limited acct M a = true) ∧ (accs.map (·.id)).Nodup := by
  simp [fair]

theorem lists_iff {accs : List Account} : lists acct accs = true ↔ ∃ a ∈ accs, a.id = acct := by
  simp [lists]

variable {load : Int → Option (List Account)} {gids named : List Int} {w : Working}

theorem foldGroups_holds (fairly : ∀ gid ∈ gids, (load gid).all (fair acct M) = true)
    (linked : w.root.Linked) (owned : w.root.All (Owned acct M r))
    (names : w.root.Names acct named) (kept : stays acct load gids (some named) = true) :
    (foldGroups load gids w).root.Holds acct M r := by
  induction gids generalizing w named with
  | nil =>
    obtain ⟨leaf, found, _⟩ := names
    exact ⟨owned, by simp [foldGroups, found]⟩
  | cons gid rest ih =>
    obtain ⟨first, fairly⟩ := forall_mem_cons.mp fairly
    cases loaded : load gid with
    | none =>
      simp only [stays, foldGroups, loaded] at kept ⊢
      exact ih fairly linked owned names kept
    | some accs =>
      simp only [stays, foldGroups, loaded, Option.all_some, getD_some] at kept first ⊢
      obtain ⟨bounded, distinct⟩ := fair_iff.mp first
      have indexed : (w.root.byID.lookup acct).isSome := by
        obtain ⟨leaf, found, _⟩ := names
        simp [found]
      have linked' := invalidateOneInto_linked gid linked distinct
      have owned' : (invalidateOneInto w gid accs).root.All _ := invalidateOneInto_all owned_mixable owned
        (built_owned owned (by simpa [rows] using bounded) (built_runtime owned indexed))
      split at kept
      next listed =>
        exact ih fairly linked' owned' (names_join gid linked distinct (lists_iff.mp listed) names) kept
      next absent =>
        rw [Bool.and_eq_true, Bool.not_eq_true', isEmpty_eq_false_iff] at kept
        exact ih fairly linked' owned'
          (names_leave gid linked distinct (mt lists_iff.mpr absent) names kept.1) kept.2

theorem Root.Open.absent {root : Root} (before : root.Open acct M) :
    root.byID.lookup acct = none := by
  refine eq_none_iff_forall_ne_some.mpr fun leaf found => ?_
  have own (n : Nat) : leaf.runtime = ⟨acct, n⟩ := by
    obtain ⟨same, owned⟩ := (before ⟨acct, n⟩ rfl).indexed acct leaf found
    exact (owned.2 same).1
  cases (own 0).symm.trans (own 1)

theorem foldGroups_open (fairly : ∀ gid ∈ gids, (load gid).all (fair acct M) = true)
    (linked : w.root.Linked) (before : w.root.Open acct M)
    (kept : stays acct load gids none = true) :
    (∃ r : RuntimeRef, r.account = acct ∧ (foldGroups load gids w).root.Holds acct M r) ∨
      (foldGroups load gids w).root.Open acct M := by
  induction gids generalizing w with
  | nil => exact .inr before
  | cons gid rest ih =>
    obtain ⟨first, fairly⟩ := forall_mem_cons.mp fairly
    cases loaded : load gid with
    | none =>
      simp only [stays, foldGroups, loaded] at kept ⊢
      exact ih fairly linked before kept
    | some accs =>
      simp only [stays, foldGroups, loaded, Option.all_some, getD_none] at kept first ⊢
      obtain ⟨bounded, distinct⟩ := fair_iff.mp first
      have linked' := invalidateOneInto_linked gid linked distinct
      rcases built_open (m := [(gid, accs)]) before (by simpa [rows] using bounded) with
        ⟨leaf, found, account, built⟩ | built
      · obtain ⟨a, row, same, _⟩ := buildSnapshots_built found
        have listed : ∃ a ∈ accs, a.id = acct := ⟨a, by simpa [rows] using row, same⟩
        rw [if_pos (lists_iff.mpr listed)] at kept
        exact .inl ⟨leaf.runtime, account, foldGroups_holds fairly linked'
          (invalidateOneInto_all owned_mixable (before _ account) built)
          (names_enter gid linked distinct listed) kept⟩
      · have opened : (invalidateOneInto w gid accs).root.Open acct M := fun r account =>
          invalidateOneInto_all owned_mixable (before r account) (built r account)
        split at kept
        next listed =>
          obtain ⟨leaf, found, _⟩ := names_enter gid linked distinct (lists_iff.mp listed)
          rw [opened.absent] at found
          cases found
        · exact ih fairly linked' opened kept

end

section

variable {p : Publisher D}

variable {Q : Account → RuntimeRef → Prop} {target : Nat} {dv : DecisionView D}

theorem rootOf_all (roots : ∀ sv ∈ p.statics, sv.root.All Q) (ref : Nat) :
    (p.rootOf ref).All Q := by
  unfold rootOf
  split
  next sv found => exact roots sv (mem_of_getElem? found)
  · exact ⟨fun _ _ found => by simp at found, fun _ _ found => by simp at found⟩

theorem workingRoot_all (roots : ∀ sv ∈ p.statics, sv.root.All Q) : p.workingRoot.All Q := by
  unfold workingRoot
  split
  · exact rootOf_all roots _
  · exact ⟨fun _ _ found => by simp at found, fun _ _ found => by simp at found⟩

theorem rootOf_of_getElem? {ref : Nat} {sv : StaticView} (found : p.statics[ref]? = some sv) :
    p.rootOf ref = sv.root := by
  simp [rootOf, found]

theorem roots_stamp (ref : Nat) :
    ∀ sv ∈ (p.stamp ref).statics, ∃ old ∈ p.statics, sv.root = old.root := by
  intro sv member
  obtain ⟨i, found⟩ := getElem?_of_mem member
  simp only [stamp, getElem?_modify] at found
  obtain ⟨old, known, rfl⟩ := map_eq_some_iff.mp found
  refine ⟨old, mem_of_getElem? known, ?_⟩
  split <;> rfl

theorem roots_stage (root : Root) :
    ∀ sv ∈ ((p.newStaticView root).1.stageLocked (p.newStaticView root).2).statics,
      sv.root = root ∨ ∃ old ∈ p.statics, sv.root = old.root := by
  have added : ∀ sv ∈ (p.newStaticView root).1.statics,
      sv.root = root ∨ ∃ old ∈ p.statics, sv.root = old.root :=
    forall_mem_append.mpr ⟨fun sv before => .inr ⟨sv, before, rfl⟩,
      forall_mem_singleton.mpr (.inl rfl)⟩
  unfold stageLocked
  split
  · exact added
  intro sv member
  obtain ⟨old, known, same⟩ := roots_stamp _ sv member
  rw [same]
  exact added old known

theorem workingRoot_stage (root : Root) :
    ((p.newStaticView root).1.stageLocked (p.newStaticView root).2).workingRoot = root := by
  have found : (p.newStaticView root).1.statics[(p.newStaticView root).2]? =
      some { origin := p.statics.length, root } := by simp [newStaticView]
  unfold stageLocked
  split
  · exact rootOf_of_getElem? found
  obtain ⟨sv, stamped, _, same⟩ := grown_stamp (p.newStaticView root).2 _ _ found
  exact (rootOf_of_getElem? stamped).trans same

theorem roots_pair :
    ∀ sv ∈ (p.publishPairLocked target dv).statics, ∃ old ∈ p.statics, sv.root = old.root := by
  unfold publishPairLocked
  split
  · unfold wrap
    split
    next source found =>
      exact forall_mem_append.mpr ⟨fun sv before => ⟨sv, before, rfl⟩,
        forall_mem_singleton.mpr ⟨source, mem_of_getElem? found, rfl⟩⟩
    · exact fun sv member => ⟨sv, member, rfl⟩
  · exact roots_stamp target

theorem workingRoot_pair (paired : p.Paired) (staged : p.pending = some target) :
    (p.publishPairLocked target dv).workingRoot = p.workingRoot := by
  have inside : target < p.statics.length := by
    have := paired.newest target staged
    omega
  obtain ⟨q, static, published, grown, _, _, _, s, t, foundS, foundT, _, same⟩ :=
    publishPairLocked_eq inside dv
  obtain ⟨t', foundT', _, root⟩ := grown target _ (getElem?_eq_getElem inside)
  cases foundT.symm.trans foundT'
  have before : p.workingRoot = p.statics[target].root := by
    rw [workingRoot, newest, staged]
    exact rootOf_of_getElem? (getElem?_eq_getElem inside)
  rw [before, ← root, ← same, published]
  exact rootOf_of_getElem? foundS

end

section

/-- What a reservation holds between its steps. -/
def ReservePc.Fine (acct M : Int) (r : RuntimeRef) : ReservePc → Prop
  | .swap _ _ _ leaf cur =>
    Owned acct M r leaf.static.acc leaf.runtime ∧ (leaf.id = acct → cur + 1 ≤ M)
  | _ => True

def Call.Fine (acct M : Int) (r : RuntimeRef) : Call D → Prop
  | .reserve pc => pc.Fine acct M r
  | .release _ (.lower runtime) => runtime.account = acct → runtime = r
  | _ => True

/-- The counter of runtime `r` counts the outstanding leases of the account. -/
structure Exact (acct M : Int) (r : RuntimeRef) (σ : Pool (Heap D) (Call D)) : Prop where
  roots : ∀ sv ∈ σ.shared.publisher.statics, sv.root.All (Owned acct M r)
  leases : ∀ l ∈ σ.shared.leases, l.runtime.account = acct → l.runtime = r
  calls : ∀ (i : Nat) (call : Call D), σ.procs[i]? = some call → call.Fine acct M r
  count : σ.shared.counts r = outstanding acct σ
  bounded : σ.shared.counts r ≤ max 0 M

theorem concShare_le {limit : Int} (positive : 1 ≤ limit) (n : Int) :
    concShare limit n ≤ limit := by
  unfold concShare
  split
  · rw [Int.tdiv_eq_ediv_of_nonneg (by omega)]
    exact Int.ediv_le_self n (by omega)
  · exact positive

theorem admits_lt {instances now cur : Int} {cluster : ClusterView} {leaf : Leaf}
    (limit : 1 ≤ leaf.static.acc.maxConcurrency)
    (admitted : admits instances cluster now leaf cur = true) :
    cur + 1 ≤ leaf.static.acc.maxConcurrency := by
  have share := concShare_le limit instances
  simp only [admits, Bool.not_eq_true', Bool.and_eq_false_iff, Bool.or_eq_false_iff,
    decide_eq_false_iff_not] at admitted
  omega

/-- What a reservation can do: nothing, aim at a leaf, or take a lease. -/
inductive ReserveStep (h : Heap D) : ReservePc → Heap D → ReservePc → Prop
  | load {static : Nat} {instances : Int} {cluster : ClusterView} :
      ReserveStep h .load h (.walk static instances cluster)
  | stop {pc : ReservePc} : ReserveStep h pc h .exhausted
  | next {static : Nat} {instances : Int} {cluster : ClusterView} :
      ReserveStep h (.walk static instances cluster) h (.walk static instances cluster)
  | aim {static : Nat} {instances : Int} {cluster : ClusterView} {id now : Int} {leaf : Leaf}
      (found : (h.publisher.rootOf static).byID.lookup id = some leaf)
      (admitted : admits instances cluster now leaf (h.counts leaf.runtime) = true) :
      ReserveStep h (.walk static instances cluster) h
        (.swap static instances cluster leaf (h.counts leaf.runtime))
  | lost {static : Nat} {instances : Int} {cluster : ClusterView} {leaf : Leaf} {cur : Int} :
      ReserveStep h (.swap static instances cluster leaf cur) h (.walk static instances cluster)
  | lease {static : Nat} {instances : Int} {cluster : ClusterView} {leaf : Leaf} :
      ReserveStep h (.swap static instances cluster leaf (h.counts leaf.runtime))
        { h with
          counts := Function.update h.counts leaf.runtime (h.counts leaf.runtime + 1)
          leases := h.leases ++ [⟨leaf.runtime, false⟩] } (.held h.leases.length)

variable {pc pc' : ReservePc} {s s' : Heap D} {procs : List (Call D)} {call : Call D} {i : Nat}

theorem stepReserve_cases {input : Input D} {h h' : Heap D}
    (stepped : stepReserve input h pc = some (h', pc')) : ReserveStep h pc h' pc' := by
  cases pc <;> simp only [stepReserve, reduceCtorEq] at stepped
  case load =>
    split at stepped <;> cases stepped
    · exact .stop
    · exact .load
  case walk static instances cluster =>
    split at stepped
    · cases stepped
      exact .stop
    split at stepped
    · cases stepped
      exact .next
    next found =>
      split at stepped <;> cases stepped
      next admitted => exact .aim found (Bool.and_eq_true_iff.mp admitted).2
      · exact .next
  case swap static instances cluster leaf cur =>
    split at stepped <;> cases stepped
    next same =>
      subst same
      exact .lease
    · exact .lost

theorem ReserveStep.fine {h h' : Heap D} (step : ReserveStep h pc h' pc')
    (roots : ∀ sv ∈ h.publisher.statics, sv.root.All (Owned acct M r)) : pc'.Fine acct M r := by
  cases step with
  | @aim static instances cluster id now leaf found admitted =>
    obtain ⟨_, owned⟩ := (rootOf_all roots static).indexed id leaf found
    refine ⟨owned, ?_⟩
    intro own
    obtain ⟨_, lower, upper⟩ := owned.2 own
    have := admits_lt lower admitted
    omega
  | _ => trivial

theorem Exact.start (exactly : Exact acct M r ⟨s, procs⟩) (starts : call.starts = true) :
    Exact acct M r ⟨s, procs ++ [call]⟩ := by
  have fine : call.Fine acct M r ∧ call.lowering acct = 0 := by
    cases call with
    | reserve pc =>
      cases pc with
      | load => exact ⟨trivial, rfl⟩
      | _ => cases starts
    | release lease pc =>
      cases pc with
      | swap => exact ⟨trivial, rfl⟩
      | _ => cases starts
    | _ => exact ⟨trivial, rfl⟩
  refine ⟨exactly.roots, exactly.leases, each_append fine.1 exactly.calls, ?_, exactly.bounded⟩
  have count := exactly.count
  simp only [outstanding] at count ⊢
  rw [total_append, fine.2, count]
  omega

/-- A step of one call that keeps the roots, the leases and the counter. -/
theorem Exact.quiet {call' : Call D} (exactly : Exact acct M r ⟨s, procs⟩)
    (found : procs[i]? = some call)
    (roots : ∀ sv ∈ s'.publisher.statics, sv.root.All (Owned acct M r))
    (leases : s'.leases = s.leases) (counts : s'.counts = s.counts) (fine : call'.Fine acct M r)
    (lowering : call'.lowering acct = call.lowering acct) :
    Exact acct M r ⟨s', procs.set i call'⟩ := by
  refine ⟨roots, ?_, each_set fine fun j other _ => exactly.calls j other, ?_, ?_⟩
  · simpa [leases] using exactly.leases
  · have count := exactly.count
    simp only [outstanding] at count ⊢
    rw [total_set found, leases, counts, count, lowering]
    omega
  · simpa [counts] using exactly.bounded

theorem update_counts (counts : RuntimeRef → Int) {runtime : RuntimeRef}
    (own : runtime.account = acct → runtime = r) (account : r.account = acct) (n : Int) :
    Function.update counts runtime (counts runtime + n) r =
      counts r + if runtime.account = acct then n else 0 := by
  split
  next mine => rw [own mine, update_self]
  next other =>
    have apart : r ≠ runtime := fun same => other (same ▸ account)
    rw [update_of_ne apart, add_zero]

variable (exactly : Exact acct M r ⟨s, procs⟩)

include exactly

theorem Exact.reserve (account : r.account = acct) (found : procs[i]? = some (.reserve pc))
    (step : ReserveStep s pc s' pc') : Exact acct M r ⟨s', procs.set i (.reserve pc')⟩ := by
  have fine := exactly.calls i _ found
  have fine' : pc'.Fine acct M r := step.fine exactly.roots
  cases step with
  | @lease static instances cluster leaf =>
    obtain ⟨owned, room⟩ := fine
    have number : leaf.id = leaf.runtime.account := owned.1.symm
    have count : s.counts r = total (standing acct) s.leases +
      total (lowering acct) procs := exactly.count
    have bounded : s.counts r ≤ max 0 M := exactly.bounded
    have moved := update_counts s.counts (fun mine => (owned.2 (number.trans mine)).1) account 1
    refine ⟨exactly.roots, ?_, each_set fine' fun j other _ => exactly.calls j other, ?_, ?_⟩
    · exact forall_mem_append.mpr ⟨exactly.leases,
        forall_mem_singleton.mpr fun own => (owned.2 (number.trans own)).1⟩
    · simp only [outstanding, total_append, total_set found, standing_unreleased, lowering_reserve,
        moved]
      split <;> omega
    · simp only [moved]
      split
      next mine =>
        have := room (number.trans mine)
        rw [(owned.2 (number.trans mine)).1] at this
        omega
      · omega
  | _ => exact exactly.quiet found exactly.roots rfl rfl fine' rfl

theorem Exact.release {lease : Nat} {pc pc' : ReleasePc} (account : r.account = acct)
    (found : procs[i]? = some (.release lease pc))
    (stepped : stepRelease s lease pc = some (s', pc')) :
    Exact acct M r ⟨s', procs.set i (.release lease pc')⟩ := by
  have fine := exactly.calls i _ found
  have count : s.counts r = total (standing acct) s.leases +
    total (lowering acct) procs := exactly.count
  have bounded : s.counts r ≤ max 0 M := exactly.bounded
  cases pc with
  | swap =>
    simp only [stepRelease] at stepped
    split at stepped
    · cases stepped
    rename_i l known
    obtain ⟨runtime, released⟩ := l
    cases released with
    | true =>
      cases stepped
      exact exactly.quiet found exactly.roots rfl rfl trivial rfl
    | false =>
      cases stepped
      have own := exactly.leases _ (mem_of_getElem? known)
      refine ⟨exactly.roots, ?_, each_set own fun j other _ => exactly.calls j other, ?_, bounded⟩
      · intro other member mine
        rcases mem_or_eq_of_mem_set member with before | rfl
        · exact exactly.leases other before mine
        · exact own mine
      · simp only [outstanding, total_set found, total_set known, standing_unreleased,
          standing_released, lowering_swap, lowering_lower]
        omega
  | lower runtime =>
    cases stepped
    have moved : Function.update s.counts runtime (s.counts runtime - 1) r = _ :=
      update_counts s.counts fine account (-1)
    refine ⟨exactly.roots, exactly.leases, each_set trivial fun j other _ => exactly.calls j other,
      ?_, ?_⟩
    · simp only [outstanding, total_set found, lowering_lower, lowering_done, moved]
      split <;> omega
    · simp only [moved]
      split <;> omega
  | done => cases stepped

theorem Exact.fire {pc pc' : FirePc D} (found : procs[i]? = some (.fire pc))
    (step : FireStep s pc s' pc') : Exact acct M r ⟨s', procs.set i (.fire pc')⟩ := by
  cases step with
  | pair staged captured =>
    refine exactly.quiet found ?_ rfl rfl trivial rfl
    intro sv member
    obtain ⟨old, known, same⟩ := roots_pair sv member
    rw [same]
    exact exactly.roots old known
  | _ => exact exactly.quiet found exactly.roots rfl rfl trivial rfl

theorem Exact.stage (found : procs[i]? = some call) (lowering : call.lowering acct = 0)
    (created : Created) {root : Root} (owned : root.All (Owned acct M r)) :
    Exact acct M r ⟨s.stage created root, procs.set i .finished⟩ := by
  refine exactly.quiet found ?_ rfl rfl trivial lowering.symm
  intro sv member
  rcases roots_stage root sv member with same | ⟨old, known, same⟩
  · rw [same]
    exact owned
  · rw [same]
    exact exactly.roots old known

end

/-- The account is indexed in the newest root and its counter exact, or the account has
not appeared yet. -/
structure Sound (acct M : Int) (σ : Pool (Heap D) (Call D)) : Prop where
  linked : σ.shared.publisher.workingRoot.Linked
  counted : (∃ r : RuntimeRef, r.account = acct ∧ Exact acct M r σ ∧
      (σ.shared.publisher.workingRoot.byID.lookup acct).isSome) ∨
    ∀ r : RuntimeRef, r.account = acct → Exact acct M r σ

/-- A step that keeps the working root and the counter under every runtime. -/
theorem Sound.quiet {σ σ' : Pool (Heap D) (Call D)} (sound : Sound acct M σ)
    (working : σ'.shared.publisher.workingRoot = σ.shared.publisher.workingRoot)
    (step : ∀ r : RuntimeRef, r.account = acct → Exact acct M r σ → Exact acct M r σ') :
    Sound acct M σ' := by
  refine ⟨working ▸ sound.linked, ?_⟩
  rcases sound.counted with ⟨r, account, exactly, indexed⟩ | unseen
  · exact .inl ⟨r, account, step r account exactly, by rw [working]; exact indexed⟩
  · exact .inr fun r account => step r account (unseen r account)

theorem workingRoot_staged (h : Heap D) (created : Created) (root : Root) :
    (h.stage created root).publisher.workingRoot = root :=
  workingRoot_stage root

variable {s : Heap D} {procs : List (Call D)} {i : Nat} {input : Input D}

section

variable (sound : Sound acct M ⟨s, procs⟩)

include sound

theorem Sound.reload {m : List (Int × List Account)} (found : procs[i]? = some (.reload m))
    (kept : keeps acct M ⟨s, procs⟩ (.step i input) = true) :
    Sound acct M ⟨s.reload m, procs.set i .finished⟩ := by
  simp only [keeps, found, Bool.and_eq_true, List.all_eq_true] at kept
  obtain ⟨fairly, kept⟩ := kept
  have bounded : ∀ a ∈ rows m, limited acct M a = true := by
    intro a row
    obtain ⟨g, loaded, row⟩ := mem_flatMap.mp row
    exact (fair_iff.mp (fairly g loaded)).1 a row
  refine ⟨?_, ?_⟩
  · simp only [Heap.reload, workingRoot_staged]
    exact buildSnapshots_linked sound.linked.numbered fun g loaded =>
      (fair_iff.mp (fairly g loaded)).2
  simp only [Heap.reload, workingRoot_staged]
  rcases sound.counted with ⟨r, account, exactly, indexed⟩ | unseen
  · have working := workingRoot_all exactly.roots
    refine .inl ⟨r, account, exactly.stage found rfl _ (buildSnapshots_all
      (built_owned working bounded (built_runtime working indexed))), ?_⟩
    obtain ⟨leaf, known⟩ := isSome_iff_exists.mp indexed
    obtain ⟨a, row, rfl⟩ := lists_iff.mp (by simpa [Root.namedGroups, known] using kept)
    exact buildSnapshots_indexed row
  · rcases built_open (fun r account => workingRoot_all (unseen r account).roots) bounded with
      ⟨leaf, loaded, account, built⟩ | built
    · exact .inl ⟨leaf.runtime, account, (unseen _ account).stage found rfl _
        (buildSnapshots_all built), by simp [loaded]⟩
    · exact .inr fun r account =>
        (unseen r account).stage found rfl _ (buildSnapshots_all (built r account))

theorem Sound.invalidateGroups {ids : List Int} {load : Int → Option (List Account)} {reach : Nat}
    (found : procs[i]? = some (.invalidateGroups ids load reach))
    (kept : keeps acct M ⟨s, procs⟩ (.step i input) = true) :
    Sound acct M ⟨s.invalidateGroups ids load reach, procs.set i .finished⟩ := by
  simp only [keeps, found, Bool.and_eq_true, List.all_eq_true] at kept
  obtain ⟨fairly, kept⟩ := kept
  rcases s.invalidateGroups_cases ids load reach with same | staged
  · rw [same]
    exact sound.quiet rfl fun r _ exactly =>
      exactly.quiet found exactly.roots rfl rfl trivial rfl
  rw [staged]
  refine ⟨?_, ?_⟩
  · simp only [workingRoot_staged]
    refine foldGroups_linked (fun gid member accs loaded => ?_) sound.linked
    exact (fair_iff.mp (by simpa [loaded] using fairly gid member)).2
  simp only [workingRoot_staged]
  rcases sound.counted with ⟨r, account, exactly, indexed⟩ | unseen
  · obtain ⟨leaf, known⟩ := isSome_iff_exists.mp indexed
    simp only [Root.namedGroups, known, map_some] at kept
    obtain ⟨owned, indexed⟩ := foldGroups_holds (w := s.working) fairly sound.linked
      (workingRoot_all exactly.roots) ⟨leaf, known, fun _ member => member⟩ kept
    exact .inl ⟨r, account, exactly.stage found rfl _ owned, indexed⟩
  · have before : s.working.root.Open acct M := fun r account =>
      workingRoot_all (unseen r account).roots
    have absent : s.publisher.workingRoot.byID.lookup acct = none := before.absent
    simp only [Root.namedGroups, absent, map_none] at kept
    rcases foldGroups_open fairly sound.linked before kept with ⟨r, account, owned, indexed⟩ | opened
    · exact .inl ⟨r, account, (unseen r account).stage found rfl _ owned, indexed⟩
    · exact .inr fun r account => (unseen r account).stage found rfl _ (opened r account)

theorem stepCall_sound {s' : Heap D} {call call' : Call D} (paired : s.publisher.Paired)
    (kept : keeps acct M ⟨s, procs⟩ (.step i input) = true)
    (found : procs[i]? = some call) (stepped : stepCall i input s call = some (s', call')) :
    Sound acct M ⟨s', procs.set i call'⟩ := by
  cases call with
  | reserve pc =>
    obtain ⟨⟨next, pc'⟩, acted, same⟩ := map_eq_some_iff.mp stepped
    cases same
    refine sound.quiet ?_ fun r account exactly =>
      exactly.reserve account found (stepReserve_cases acted)
    simp only [stepReserve_publisher acted]
  | release lease pc =>
    obtain ⟨⟨next, pc'⟩, acted, same⟩ := map_eq_some_iff.mp stepped
    cases same
    refine sound.quiet ?_ fun r account exactly => exactly.release account found acted
    simp only [stepRelease_publisher acted]
  | fire pc =>
    obtain ⟨⟨next, pc'⟩, acted, same⟩ := map_eq_some_iff.mp stepped
    cases same
    have step := stepFire_cases acted
    refine sound.quiet ?_ fun r _ exactly => exactly.fire found step
    cases step with
    | pair staged captured => exact workingRoot_pair paired staged
    | base view static =>
      simp [workingRoot, newest, publish, store, view, rootOf]
    | _ => rfl
  | reload m =>
    cases stepped
    exact sound.reload found kept
  | invalidateGroups ids load reach =>
    cases stepped
    exact sound.invalidateGroups found kept
  | finished => cases stepped

end

theorem sound_of_reachable {σ : Pool (Heap D) (Call D)}
    (reached : Reachable stepCall (fun σ l => keeps acct M σ l = true) (newScheduler D) σ) :
    AllPaired σ ∧ Sound acct M σ := by
  apply reached.invariant
  · refine ⟨allPaired_of_reachable .refl, .empty, .inr fun r _ => ⟨?_, ?_, ?_, ?_, ?_⟩⟩
    · exact nofun
    · exact nofun
    · intro i call found
      simp [newScheduler] at found
    · rfl
    · exact le_max_left 0 M
  · intro s procs call permitted before
    exact ⟨⟨before.1.1, each_append (ok_of_starts permitted _) before.1.2⟩,
      before.2.quiet rfl fun r _ exactly => exactly.start permitted⟩
  · intro s procs i input call s' call' permitted found stepped before
    obtain ⟨paired, grown, ok⟩ := stepCall_paired stepped before.1.1 (before.1.2 i call found)
    exact ⟨⟨paired, each_set ok fun j other _ known => (before.1.2 j other known).grown grown⟩,
      stepCall_sound before.2 before.1.1 permitted found stepped⟩

/-- As long as every reload loads the account and every batch leaves it a group, the counter of
every view ever made counts its outstanding leases and stays within the limit. -/
theorem leases_exact (acct M : Int) {σ : Pool (Heap D) (Call D)}
    (reached : Reachable stepCall (fun σ l => keeps acct M σ l = true) (newScheduler D) σ)
    (static : Nat) (leaf : Leaf)
    (consulted : (σ.shared.publisher.rootOf static).byID.lookup acct = some leaf) :
    σ.shared.counts leaf.runtime = outstanding acct σ ∧ σ.shared.counts leaf.runtime ≤ M := by
  have exactly : ∃ r, Exact acct M r σ := by
    rcases (sound_of_reachable reached).2.counted with ⟨r, _, exactly, _⟩ | unseen
    · exact ⟨r, exactly⟩
    · exact ⟨⟨acct, 0⟩, unseen ⟨acct, 0⟩ rfl⟩
  obtain ⟨r, exactly⟩ := exactly
  obtain ⟨same, owned⟩ := (rootOf_all exactly.roots static).indexed acct leaf consulted
  obtain ⟨mine, lower, upper⟩ := owned.2 same
  have bounded := exactly.bounded
  rw [mine]
  exact ⟨exactly.count, by omega⟩

def publishedStatic (σ : Pool (Heap D) (Call D)) : Nat :=
  (σ.shared.publisher.view.map (·.static)).getD 0

/-- The counter that a reservation of the account consults in the published view. -/
def consultedCount (acct : Int) (σ : Pool (Heap D) (Call D)) : Option (Int × Int) :=
  ((σ.shared.publisher.rootOf (publishedStatic σ)).byID.lookup acct).map fun leaf =>
    (leaf.static.acc.maxConcurrency, σ.shared.counts leaf.runtime)

def fireOnce (i : Nat) : List (Label (Call Unit) (Input Unit)) :=
  [.start (.fire .capture), .step i {}, .step i { compiled := some () }, .step i {}]

def reserveOnce (i : Nat) (acct : Int) : List (Label (Call Unit) (Input Unit)) :=
  [.start (.reserve .load), .step i {}, .step i { candidate := some acct }, .step i {}]

def singleAccount : Account := { id := 7, maxConcurrency := 1 }

/-- An account of two groups is leased and then leaves the first group. -/
def leaveOneGroup : List (Label (Call Unit) (Input Unit)) :=
  [.start (.reload [(1, [singleAccount]), (2, [singleAccount])]), .step 0 {}] ++ fireOnce 1 ++
  reserveOnce 2 7 ++ [.start (.invalidateGroups [1] (fun _ => some []) 1), .step 3 {}] ++ fireOnce 4

theorem leases_exact_left : ∃ σ : Pool (Heap Unit) (Call Unit), ∃ leaf,
    (σ.shared.publisher.rootOf (publishedStatic σ)).byID.lookup 7 = some leaf ∧
    leaf.static.groupIDs = [2] ∧ outstanding 7 σ = 1 ∧ σ.shared.counts leaf.runtime = 1 := by
  have ran : (run stepCall (keeps 7 1) (newScheduler Unit) leaveOneGroup).map (fun σ =>
      (((σ.shared.publisher.rootOf (publishedStatic σ)).byID.lookup 7).map (·.static.groupIDs),
        outstanding 7 σ)) = some (some [2], 1) := by
    decide +kernel
  obtain ⟨σ, ran, facts⟩ := map_eq_some_iff.mp ran
  obtain ⟨listed, count⟩ := Prod.mk.inj facts
  obtain ⟨leaf, found, groups⟩ := map_eq_some_iff.mp listed
  have exactly := leases_exact 7 1 (reachable_of_run ran) (publishedStatic σ) leaf found
  exact ⟨σ, leaf, found, groups, count, by rw [exactly.1, count]⟩

def movedAccounts (gid : Int) : Option (List Account) :=
  if gid = 2 then some [singleAccount] else some []

/-- An account is leased, moves from the first group to the second within one batch, and
is leased again. -/
def moveAndLease : List (Label (Call Unit) (Input Unit)) :=
  [.start (.reload [(1, [singleAccount]), (2, [])]), .step 0 {}] ++ fireOnce 1 ++
  reserveOnce 2 7 ++ [.start (.invalidateGroups [1, 2] movedAccounts 2), .step 3 {}] ++
  fireOnce 4 ++ reserveOnce 5 7

theorem moved_account_counts_again : ∃ σ : Pool (Heap Unit) (Call Unit),
    Reachable stepCall (fun σ l => legal σ l = true) (newScheduler Unit) σ ∧
    consultedCount 7 σ = some (1, 1) ∧ outstanding 7 σ = 2 := by
  have ran : (run stepCall legal (newScheduler Unit) moveAndLease).map (fun σ =>
      (consultedCount 7 σ, outstanding 7 σ)) = some (some (1, 1), 2) := by
    decide +kernel
  obtain ⟨σ, ran, facts⟩ := map_eq_some_iff.mp ran
  obtain ⟨consulted, count⟩ := Prod.mk.inj facts
  exact ⟨σ, reachable_of_run ran, consulted, count⟩

end C3Api.Scheduler
