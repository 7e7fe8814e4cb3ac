import C3Api.Scheduler.Snapshot

/-!
# Where leaves come from

A reload or a batch builds leaves from loaded rows and from leaves that exist. What
relates the account of a leaf to its runtime, and does not depend on which leaf of an
account supplied the runtime, therefore holds of every leaf once it holds of the
leaves that `buildSnapshots` makes.
-/

namespace C3Api.Scheduler

open FiniteMap List

/-- The index holds every account under its own number, and all leaves satisfy `Q`. -/
structure Root.All (Q : Account → RuntimeRef → Prop) (root : Root) : Prop where
  indexed : ∀ id leaf, root.byID.lookup id = some leaf →
    leaf.id = id ∧ Q leaf.static.acc leaf.runtime
  listed : ∀ gid gs, root.groups.lookup gid = some gs → ∀ leaf ∈ gs.accounts,
    Q leaf.static.acc leaf.runtime

/-- The index holds leaves under the numbers of their accounts, and they satisfy `Q`. -/
abbrev IndexAll (Q : Account → RuntimeRef → Prop) (byID : Map Int Leaf) : Prop :=
  ∀ id leaf, byID.lookup id = some leaf → leaf.id = id ∧ Q leaf.static.acc leaf.runtime

abbrev LeavesAll (Q : Account → RuntimeRef → Prop) (leaves : List Leaf) : Prop :=
  ∀ leaf ∈ leaves, Q leaf.static.acc leaf.runtime

@[simp] theorem clampCodex_id (a : Account) : (clampCodex a).id = a.id := by
  unfold clampCodex
  split
  · split <;> rfl
  · rfl

variable {accs : List Account} {id : Int} {leaf : Leaf}

section

variable {created : Created} {oldByID : Map Int Leaf} {m : List (Int × List Account)}

def rows (m : List (Int × List Account)) : List Account := m.flatMap Prod.snd

/-- Every account of the collection is one of the rows, under its number. -/
def Collected (accs : List Account) (infos : Map Int AccInfo) : Prop :=
  ∀ id inf, infos.lookup id = some inf → inf.acc.id = id ∧ inf.acc ∈ accs

theorem Collected.group {gid : Int} {group : List Account} {infos : Map Int AccInfo}
    (collected : Collected accs infos) (included : ∀ a ∈ group, a ∈ accs) :
    Collected accs (group.foldl (collectOne gid) infos) := by
  refine foldlRecOn group _ collected fun infos collected a member id inf found => ?_
  unfold collectOne at found
  split at found <;> rw [lookup_insert_ite] at found <;> split at found
  next before known same =>
    cases found
    subst same
    exact collected a.id before known
  · exact collected id inf found
  next same =>
    cases found
    exact ⟨same.symm, included a member⟩
  · exact collected id inf found

theorem collectInfo_collected (m : List (Int × List Account)) :
    Collected (rows m) (collectInfo m) := by
  refine foldlRecOn m _ ?_ fun infos collected g member => ?_
  · intro id inf found
    simp at found
  · exact collected.group fun a row => mem_flatMap.mpr ⟨g, member, row⟩

/-- A built leaf is for a loaded row. It is the old one, or carries the row and keeps
the runtime of the old one. -/
def Built (accs : List Account) (oldByID : Map Int Leaf) (id : Int) (leaf : Leaf) : Prop :=
  ∃ a ∈ accs, a.id = id ∧ (oldByID.lookup id = some leaf ∨ leaf.static.acc = clampCodex a ∧
    (∀ o, oldByID.lookup id = some o → leaf.runtime = o.runtime) ∧
    (oldByID.lookup id = none → leaf.runtime.account = id))

theorem buildLeaf_built {inf : AccInfo} (numbered : inf.acc.id = id) (row : inf.acc ∈ accs) :
    Built accs oldByID id (buildLeaf created (oldByID.lookup id) inf).2 := by
  refine ⟨inf.acc, row, numbered, ?_⟩
  unfold buildLeaf
  cases known : oldByID.lookup id with
  | none =>
    refine .inr ⟨rfl, ?_, fun _ => numbered⟩
    intro o same
    cases same
  | some o =>
    dsimp only
    split
    · exact .inl rfl
    refine .inr ⟨rfl, ?_, nofun⟩
    intro p same
    cases same
    rfl

/-- Every leaf of the index is built for the entry of its account. -/
theorem buildLeaves_from (infos : List (Int × AccInfo))
    (found : (buildLeaves created oldByID infos).2.lookup id = some leaf) :
    ∃ (c : Created) (inf : AccInfo), (id, inf) ∈ infos ∧
      leaf = (buildLeaf c (oldByID.lookup id) inf).2 := by
  suffices general : ∀ (infos : List (Int × AccInfo)) (s : Created × Map Int Leaf),
      (infos.foldl (buildOne oldByID) s).2.lookup id = some leaf →
      s.2.lookup id = some leaf ∨ ∃ (c : Created) (inf : AccInfo), (id, inf) ∈ infos ∧
        leaf = (buildLeaf c (oldByID.lookup id) inf).2 by
    exact (general infos (created, ∅) found).resolve_left (by simp)
  intro infos
  induction infos with
  | nil => exact fun s found => .inl found
  | cons e rest ih =>
    intro s found
    rcases ih _ found with before | ⟨c, inf, member, rfl⟩
    · rw [buildOne, lookup_insert_ite] at before
      split at before
      next same =>
        cases before
        exact .inr ⟨s.1, e.2, by rw [same]; exact mem_cons_self, by rw [same]⟩
      · exact .inl before
    · exact .inr ⟨c, inf, mem_cons_of_mem _ member, rfl⟩

theorem buildSnapshots_built
    (found : (buildSnapshots created m oldByID).2.byID.lookup id = some leaf) :
    Built (rows m) oldByID id leaf := by
  obtain ⟨c, inf, member, rfl⟩ := buildLeaves_from _ found
  obtain ⟨numbered, row⟩ := collectInfo_collected m id inf (mem_pairs.mp member)
  exact buildLeaf_built numbered row

/-- The groups list leaves of the index. -/
theorem buildSnapshots_listed {gid : Int} {gs : GroupSnapshot}
    (found : (buildSnapshots created m oldByID).2.groups.lookup gid = some gs)
    (member : leaf ∈ gs.accounts) :
    ∃ id, (buildSnapshots created m oldByID).2.byID.lookup id = some leaf := by
  rcases lookup_insertAll_cases found with entry | ⟨_, none⟩
  · obtain ⟨g, _, same⟩ := mem_map.mp entry
    obtain ⟨_, rfl⟩ := Prod.mk.inj same
    obtain ⟨a, _, indexed⟩ := mem_filterMap.mp member
    exact ⟨a.id, indexed⟩
  · simp at none

theorem buildSnapshots_all {Q : Account → RuntimeRef → Prop}
    (each : IndexAll Q (buildSnapshots created m oldByID).2.byID) :
    (buildSnapshots created m oldByID).2.All Q := by
  refine ⟨each, ?_⟩
  intro gid gs found leaf member
  obtain ⟨id, indexed⟩ := buildSnapshots_listed found member
  exact (each id leaf indexed).2

end

variable {Q : Account → RuntimeRef → Prop} {gid : Int}

/-- The leaf of an account may take over the runtime of another leaf of the account. -/
def Mixable (Q : Account → RuntimeRef → Prop) : Prop :=
  ∀ a b r s, a.id = b.id → Q a r → Q b s → Q a s

theorem removeOne_all (gid : Int) (newIDs : List Int) {s : Removal} {os : Leaf}
    (own : Q os.static.acc os.runtime)
    (indexed : IndexAll Q s.byID) (others : ∀ e ∈ s.otherRefs, Q e.2.static.acc e.2.runtime) :
    IndexAll Q (removeOne gid newIDs s os).byID ∧
    ∀ e ∈ (removeOne gid newIDs s os).otherRefs, Q e.2.static.acc e.2.runtime := by
  unfold removeOne
  split
  · exact ⟨indexed, others⟩
  split
  · refine ⟨?_, others⟩
    intro id leaf found
    simp only [lookup_erase_ite] at found
    split at found
    · cases found
    · exact indexed id leaf found
  · constructor
    · intro id leaf found
      simp only [lookup_insert_ite] at found
      split at found
      next same =>
        cases found
        exact ⟨same.symm, own⟩
      · exact indexed id leaf found
    · exact forall_mem_append.mpr ⟨others, forall_mem_map.mpr fun _ _ => own⟩

theorem removeAll_all (gid : Int) (newIDs : List Int) (old : List Leaf) (s : Removal)
    (listed : ∀ os ∈ old, Q os.static.acc os.runtime)
    (indexed : IndexAll Q s.byID) (others : ∀ e ∈ s.otherRefs, Q e.2.static.acc e.2.runtime) :
    IndexAll Q (old.foldl (removeOne gid newIDs) s).byID ∧
    ∀ e ∈ (old.foldl (removeOne gid newIDs) s).otherRefs, Q e.2.static.acc e.2.runtime := by
  refine foldlRecOn (motive := fun s : Removal => IndexAll Q s.byID ∧
    ∀ e ∈ s.otherRefs, Q e.2.static.acc e.2.runtime) old _ ⟨indexed, others⟩ ?_
  exact fun s kept os member => removeOne_all gid newIDs (listed os member) kept.1 kept.2

theorem adopted_all (gid : Int) (mixable : Mixable Q) {byID : Map Int Leaf} {ns : Leaf}
    (built : Q ns.static.acc ns.runtime) (indexed : IndexAll Q byID) :
    (adopted gid byID ns).1.static.acc = ns.static.acc ∧
      Q (adopted gid byID ns).1.static.acc (adopted gid byID ns).1.runtime := by
  unfold adopted
  split
  next oa known =>
    obtain ⟨same, satisfied⟩ := indexed ns.id oa known
    exact ⟨rfl, mixable _ _ _ _ same.symm built satisfied⟩
  · exact ⟨rfl, built⟩

theorem adoptAll_all (gid : Int) (mixable : Mixable Q) (newAccs : List Leaf) (s : Adoption)
    (built : ∀ ns ∈ newAccs, Q ns.static.acc ns.runtime)
    (indexed : IndexAll Q s.byID) (leaves : LeavesAll Q s.leaves) :
    IndexAll Q (newAccs.foldl (adoptOne gid) s).byID ∧
    LeavesAll Q (newAccs.foldl (adoptOne gid) s).leaves := by
  refine foldlRecOn (motive := fun s : Adoption => IndexAll Q s.byID ∧ LeavesAll Q s.leaves)
    newAccs _ ⟨indexed, leaves⟩ ?_
  rintro s ⟨indexed, leaves⟩ ns member
  obtain ⟨account, satisfied⟩ := adopted_all gid mixable (built ns member) indexed
  refine ⟨fun id leaf found => ?_, forall_mem_append.mpr ⟨leaves, forall_mem_singleton.mpr satisfied⟩⟩
  rw [adoptOne, lookup_insert_ite] at found
  split at found
  next same =>
    cases found
    exact ⟨by rw [Leaf.id, account, same, Leaf.id], satisfied⟩
  · exact indexed id leaf found

variable {leaves : List Leaf} {gs : GroupSnapshot} {w : Working}

theorem replaceByID_all (fresh : LeavesAll Q leaves) (listed : LeavesAll Q gs.accounts) :
    LeavesAll Q (replaceByID leaves gs).accounts := by
  intro leaf member
  obtain ⟨oas, old, rfl⟩ := mem_map.mp member
  cases found : (insertAll ∅ (leaves.map fun lf => (lf.id, lf)) : Map Int Leaf).lookup oas.id with
  | none => exact listed oas old
  | some lf =>
    rcases lookup_insertAll_cases found with entry | ⟨_, none⟩
    · obtain ⟨other, source, same⟩ := mem_map.mp entry
      obtain ⟨_, rfl⟩ := Prod.mk.inj same
      exact fresh other source
    · simp at none

theorem replaceAt_all (fresh : LeavesAll Q leaves) (listed : LeavesAll Q gs.accounts) :
    LeavesAll Q (replaceAt leaves gs).accounts := by
  refine foldlRecOn leaves _ listed fun repl satisfied ns new leaf member => ?_
  unfold placeOne at member
  split at member
  · rcases mem_or_eq_of_mem_set member with before | rfl
    · exact satisfied leaf before
    · exact fresh leaf new
  · exact satisfied leaf member

theorem rewriteGroups_all {rewrite : Int → GroupSnapshot → GroupSnapshot}
    (rewrites : ∀ og gs, LeavesAll Q gs.accounts → LeavesAll Q (rewrite og gs).accounts)
    (gids : List Int) (m : Map Int GroupSnapshot)
    (listed : ∀ gid gs, m.lookup gid = some gs → LeavesAll Q gs.accounts) :
    ∀ gid gs, (rewriteGroups rewrite gids m).lookup gid = some gs → LeavesAll Q gs.accounts := by
  refine foldlRecOn (motive := fun m : Map Int GroupSnapshot =>
    ∀ gid gs, m.lookup gid = some gs → LeavesAll Q gs.accounts) gids _ listed ?_
  intro m listed og _ gid gs found
  unfold rewriteOne at found
  split at found
  next before known =>
    rw [lookup_insert_ite] at found
    split at found
    · cases found
      exact rewrites og before (listed og before known)
    · exact listed gid gs found
  · exact listed gid gs found

theorem getD_accounts_mem {m : Map Int GroupSnapshot} {gid : Int}
    (member : leaf ∈ ((m.lookup gid).map (·.accounts)).getD []) :
    ∃ gs, m.lookup gid = some gs ∧ leaf ∈ gs.accounts := by
  cases found : m.lookup gid with
  | none => simp [found] at member
  | some gs => exact ⟨gs, rfl, by simpa [found] using member⟩

theorem Root.All.accounts {root : Root} (all : root.All Q) (gid : Int) :
    LeavesAll Q (((root.groups.lookup gid).map (·.accounts)).getD []) := by
  intro leaf member
  obtain ⟨gs, found, listed⟩ := getD_accounts_mem member
  exact all.listed gid gs found leaf listed

theorem invalidateOneInto_all (mixable : Mixable Q) (before : w.root.All Q)
    (built : ∀ id leaf, (buildSnapshots w.created [(gid, accs)] w.root.byID).2.byID.lookup id =
      some leaf → leaf.id = id ∧ Q leaf.static.acc leaf.runtime) :
    (invalidateOneInto w gid accs).root.All Q := by
  obtain ⟨indexed, others⟩ := removeAll_all gid _ _
    ⟨(buildSnapshots w.created [(gid, accs)] w.root.byID).1, w.root.byID, []⟩
    (before.accounts gid) before.indexed (fun _ member => nomatch member)
  obtain ⟨indexed, leaves⟩ := adoptAll_all gid mixable _ ⟨_, [], []⟩
    ((buildSnapshots_all built).accounts gid) indexed (fun _ member => nomatch member)
  refine ⟨indexed, ?_⟩
  intro id gs found
  simp only [invalidateOneInto, lookup_insert_ite] at found
  split at found
  · cases found
    exact leaves
  refine rewriteGroups_all (fun _ gs listed => replaceAt_all leaves listed) _ _ ?_ id gs found
  refine rewriteGroups_all ?_ _ _ before.listed
  intro og gs listed
  refine replaceByID_all ?_ listed
  exact forall_mem_map.mpr fun e kept => others e (mem_of_mem_filter kept)

end C3Api.Scheduler
